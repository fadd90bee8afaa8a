import ScopedSelect.Proofs.Condition.Joining
import ScopedSelect.Render.Tree

/-!
# Conditions that list their operands

Under an infix operator or the comma of a list, a condition writes its seed and the mapped texts of
its operands in a row, with the same separator between any two, in one pair of parentheses.  Its
operands are rendered once each, from left to right, and nothing else happens to the domain
(`condition_joins`).
-/

namespace ScopedSelect

open Rendering

/-- Two steps succeed if the first does and the second does in the domain that the first leaves. -/
theorem Rendering.outcome_bind_eq_ok_iff {α β : Type} {r : Rendering α} {f : α → Rendering β}
    {d d' : Domain} {b : β} :
    (r >>= f).outcome d = (.ok b, d') ↔
      ∃ a d₁, r.outcome d = (.ok a, d₁) ∧ (f a).outcome d₁ = (.ok b, d') := by
  rw [outcome_bind]
  rcases r.outcome d with ⟨e | a, d₁⟩
  · simp
  · simp [and_assoc]

theorem Rendering.outcome_pure_eq_ok_iff {α : Type} {a b : α} {d d' : Domain} :
    (pure a : Rendering α).outcome d = (.ok b, d') ↔ a = b ∧ d = d' := by
  rw [outcome_pure, Prod.mk.injEq, Except.ok.injEq]

/-- The expressions render one after the other, each in the domain that those before it leave. -/
inductive RendersInTurn : List Expr → Domain → List String → Domain → Prop where
  | nil (d : Domain) : RendersInTurn [] d [] d
  | cons {e : Expr} {es : List Expr} {text : String} {texts : List String} {d d' d'' : Domain}
    (he : e.render.outcome d = (.ok text, d')) (hes : RendersInTurn es d' texts d'') :
    RendersInTurn (e :: es) d (text :: texts) d''

theorem rendersInTurn_iff {es : List Expr} {texts : List String} {d d' : Domain} :
    RendersInTurn es d texts d' ↔ (renderAll es).outcome d = (.ok texts, d') := by
  constructor
  · intro h
    induction h with
    | nil d => rfl
    | cons he hes ih =>
      rw [renderAll]
      refine outcome_bind_eq_ok_iff.mpr ⟨_, _, he, ?_⟩
      exact outcome_bind_eq_ok_iff.mpr ⟨_, _, ih, rfl⟩
  · intro h
    induction es generalizing d texts with
    | nil =>
      obtain ⟨rfl, rfl⟩ := outcome_pure_eq_ok_iff.mp h
      exact .nil d
    | cons e es ih =>
      rw [renderAll] at h
      obtain ⟨text, d₁, he, h⟩ := outcome_bind_eq_ok_iff.mp h
      obtain ⟨rest, d₂, hes, h⟩ := outcome_bind_eq_ok_iff.mp h
      obtain ⟨rfl, rfl⟩ := outcome_pure_eq_ok_iff.mp h
      exact .cons he (ih hes)

/-- A condition has a text if all its operands have one, and leaves the domain that they leave. -/
theorem Condition.outcome_render_eq_ok_iff {w : Condition} {d d' : Domain} {text : String} :
    w.render.outcome d = (.ok text, d') ↔
      ∃ texts, RendersInTurn w.operands d texts d' ∧ text = w.folding.text texts := by
  obtain ⟨operands, folding⟩ := w
  rw [Condition.render, outcome_bind_eq_ok_iff]
  constructor
  · rintro ⟨texts, d₁, htexts, h⟩
    obtain ⟨rfl, rfl⟩ := outcome_pure_eq_ok_iff.mp h
    exact ⟨texts, rendersInTurn_iff.mpr htexts, rfl⟩
  · rintro ⟨texts, hturn, rfl⟩
    exact ⟨texts, d', rendersInTurn_iff.mp hturn, rfl⟩

/-! ## The text -/

/-- The texts in parentheses with a separator between them.  Nothing is written if there is no text,
or if the only one is empty. -/
def separatedList (separator : String) (texts : List String) : String :=
  if texts = [] ∨ texts = [""] then "" else Text.parenthesized (separator.intercalate texts)

theorem Combinator.separator_ne_empty {c : Combinator} {separator : String}
    (h : c.separator? = some separator) : separator ≠ "" := by
  cases c with
  | infixed op =>
    obtain rfl := Option.some.inj h
    simp
  | pair =>
    obtain rfl := Option.some.inj h
    decide
  | isNull | isNotNull | fullText | custom => simp [separator?] at h

/-- Between two texts there is a separator, so that they show something even if both are empty. -/
theorem enclose_joined? {separator : String} (h : separator ≠ "") (texts : List String) :
    Folding.enclose (joined? separator texts) = separatedList separator texts := by
  rcases texts with _ | ⟨text, _ | ⟨next, texts⟩⟩
  · rfl
  · simp [joined?, Folding.enclose, separatedList]
  · have hshown : separator.intercalate (text :: next :: texts) ≠ "" := by
      simp [String.intercalate_cons_cons, h]
    have hlist : ¬(text :: next :: texts = [] ∨ text :: next :: texts = [""]) := by simp
    rw [separatedList, if_neg hlist]
    exact Folding.enclose_of_ne hshown

theorem Folding.text_eq_separatedList {f : Folding} {c : Combinator} {separator : String}
    (hc : f.combinator? = some c) (hs : c.separator? = some separator) (texts : List String) :
    f.text texts = separatedList separator (f.seed?.toList ++ texts.map f.mapped) := by
  rw [text, accumulate_eq_joined? hc hs, enclose_joined? (Combinator.separator_ne_empty hs)]

/-- A condition with an infix operator, or with the comma of a list, has a text exactly if its
operands have texts in turn.  That text lists the seed and what the map makes of their texts, and
the domain is left as the last operand leaves it. -/
theorem condition_joins (w : Condition) {c : Combinator} {separator : String}
    (hc : w.folding.combinator? = some c) (hs : c.separator? = some separator) (d d' : Domain)
    (text : String) :
    w.render.outcome d = (.ok text, d') ↔
      ∃ texts, RendersInTurn w.operands d texts d' ∧
        text = separatedList separator (w.folding.seed?.toList ++ texts.map w.folding.mapped) := by
  rw [Condition.outcome_render_eq_ok_iff]
  refine exists_congr fun texts ↦ and_congr_right fun _ ↦ ?_
  rw [Folding.text_eq_separatedList hc hs]

/-- A list after a seed, whose operands are put in brackets.  The last operand has no text. -/
def Condition.bracketedList : Condition where
  operands := [.decorated (.literal (.int32 1)) .bind, .fragment ⟨"b", none⟩, .nothing]
  folding := ⟨some ⟨"bracket", fun text ↦ "[" ++ text ++ "]"⟩, some .pair, some "s"⟩

theorem bracketedList_joins :
    Condition.bracketedList.folding.combinator? = some .pair ∧
      Combinator.pair.separator? = some "," ∧
      RendersInTurn Condition.bracketedList.operands .fresh ["?", "b", ""]
        (Domain.fresh.bind (.int32 1)) ∧
      Condition.bracketedList.render.outcome .fresh =
        (.ok "(s,[?],[b],[])", Domain.fresh.bind (.int32 1)) := by
  have hturn : RendersInTurn Condition.bracketedList.operands .fresh ["?", "b", ""]
      (Domain.fresh.bind (.int32 1)) :=
    .cons rfl (.cons rfl (.cons rfl (.nil _)))
  refine ⟨rfl, rfl, hturn, ?_⟩
  exact (condition_joins .bracketedList rfl rfl _ _ _).mpr ⟨_, hturn, by decide⟩

end ScopedSelect
