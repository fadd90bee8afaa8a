import Mathlib.Data.List.Forall2
import ScopedSelect.Proofs.Condition.Joining
import ScopedSelect.Proofs.Query.Edits
import ScopedSelect.Proofs.Render.Factoring
import ScopedSelect.Proofs.Scope.Soundness

/-!
# Conditions that are added to a join

Conditions that are added to one join collect in a conjunction that grows from the left, with the
condition that the join had before as its first member.  Nothing else in the query changes, and the
conjunction shows and binds what its members do (`augmentJoinAll_accumulates`).
-/

namespace ScopedSelect

open Rendering

/-! ## A conjunction that grows -/

/-- Both conditions hold. -/
def Expr.both (e e' : Expr) : Expr :=
  .condition (.combining .conjunction [e, e'])

/-- The conditions joined two by two from the left, if there are any. -/
def conjoined? : List Expr → Option Expr
  | [] => none
  | e :: es => some (es.foldl Expr.both e)

/-- The texts joined two by two from the left, each pair in parentheses. -/
def conjoinedText : List String → String
  | [] => ""
  | text :: texts =>
    texts.foldl (fun joined next ↦ Text.parenthesized (joined ++ " AND " ++ next)) text

/-- Conditions that were joined already can be joined with more. -/
theorem conjoined?_toList_append (es fs : List Expr) :
    conjoined? ((conjoined? es).toList ++ fs) = conjoined? (es ++ fs) := by
  cases es with
  | nil => rfl
  | cons e es => simp [conjoined?]

namespace Expr

variable {s : Scope} {e e' : Expr} {text text' : String} {vs ws : List Value}

theorem render_both (e e' : Expr) :
    (both e e').render = do
      let text ← e.render
      let text' ← e'.render
      return Text.parenthesized (text ++ " AND " ++ text') := by
  have htext (text text' : String) : (Folding.combining .conjunction).text [text, text'] =
      Text.parenthesized (text ++ " AND " ++ text') := by
    rw [Combinator.conjunction, Folding.text_infixed]
    simp [Operator.apply, Operator.conjunction, String.append_assoc]
  simp only [both, Condition.combining, render_pair, htext]

theorem both_gives (h : e.render.Gives s (.ok text) vs) (h' : e'.render.Gives s (.ok text') ws) :
    (both e e').render.Gives s (.ok (Text.parenthesized (text ++ " AND " ++ text')))
      (vs ++ ws) := by
  rw [render_both]
  exact h.bind (h'.map _)

/-- By induction on the conditions that are still to be joined. -/
theorem foldl_both_gives {es : List Expr} {outs : List (String × List Value)}
    (h : e.render.Gives s (.ok text) vs)
    (hes : List.Forall₂ (fun e out ↦ e.render.Gives s (.ok out.1) out.2) es outs) :
    (es.foldl both e).render.Gives s (.ok (conjoinedText (text :: outs.map Prod.fst)))
      (vs ++ outs.flatMap Prod.snd) := by
  induction hes generalizing e text vs with
  | nil => simpa [conjoinedText] using h
  | cons hnext _ ih =>
    have hjoined := ih (both_gives h hnext)
    simpa [conjoinedText] using hjoined

/-- Nothing is applied to what is joined. -/
theorem foldl_both_customFree {es : List Expr} (h : e.CustomFree) (hes : ∀ e ∈ es, e.CustomFree) :
    (es.foldl both e).CustomFree := by
  induction es generalizing e with
  | nil => exact h
  | cons next es ih =>
    obtain ⟨hnext, hrest⟩ := List.forall_mem_cons.mp hes
    have hboth : (both e next).CustomFree :=
      everywhere_iff.mpr ⟨rfl, List.forall_mem_cons.mpr ⟨h, List.forall_mem_singleton.mpr hnext⟩⟩
    exact ih hboth hrest

theorem foldl_both_wellScoped_iff {es : List Expr} :
    (es.foldl both e).WellScoped s ↔ e.WellScoped s ∧ ∀ e' ∈ es, e'.WellScoped s := by
  induction es generalizing e with
  | nil => simp
  | cons next es ih =>
    have hboth : (both e next).WellScoped s ↔ e.WellScoped s ∧ next.WellScoped s := by
      simp [both, wellScoped_condition_iff, Condition.combining]
    rw [List.foldl_cons, ih, hboth, List.forall_mem_cons, and_assoc]

end Expr

namespace Rendering.Steady

variable {α : Type} {r : Rendering α} (h : r.Steady)

include h

/-- What happens in one domain happens in all domains with its scope. -/
theorem gives_of_outcome {d : Domain} {x : Except RenderError α} {vs : List Value}
    (hd : r.outcome d = (x, d.bindAll vs)) : r.Gives d.scope x vs := by
  obtain ⟨y, ws, hy⟩ := h d.scope
  obtain ⟨rfl, hbound⟩ := Prod.mk.inj ((hy d rfl).symm.trans hd)
  have hvalues : ws = vs := by simpa using congrArg Domain.boundValues hbound
  exact hvalues ▸ hy

end Rendering.Steady

/-- What is made of several conditions has a text in a domain exactly if each of them has one there,
with the values that it binds.  It shows their texts joined two by two, and it binds what they bind,
in their order. -/
structure Accumulates (on? : Option Expr) (conditions : List Expr) (d : Domain) : Prop where
  hasText_iff : (∃ text, ((renderFilter on?).outcome d).1 = .ok text) ↔
    ∀ e ∈ conditions, ∃ text, (e.render.outcome d).1 = .ok text
  binds : ∀ e ∈ conditions, ∀ text, (e.render.outcome d).1 = .ok text →
    ∃ vs, e.render.outcome d = (.ok text, d.bindAll vs)
  shows : ∀ outs : List (String × List Value),
    List.Forall₂ (fun e out ↦ e.render.outcome d = (.ok out.1, d.bindAll out.2)) conditions outs →
    (renderFilter on?).outcome d =
      (.ok (conjoinedText (outs.map Prod.fst)), d.bindAll (outs.flatMap Prod.snd))

theorem accumulates_conjoined? {conditions : List Expr} (h : ∀ e ∈ conditions, e.CustomFree)
    (d : Domain) : Accumulates (conjoined? conditions) conditions d := by
  have hsteady : ∀ e ∈ conditions, e.render.Steady := fun e he ↦ steady_of_customFree (h e he)
  have hscoped {e : Expr} (he : e.CustomFree) :
      (∃ text, (e.render.outcome d).1 = .ok text) ↔ e.WellScoped d.scope :=
    Expr.isOk_iff_wellScoped he.everywhere_keepsScope
  have hbinds : ∀ e ∈ conditions, ∀ text, (e.render.outcome d).1 = .ok text →
      ∃ vs, e.render.outcome d = (.ok text, d.bindAll vs) := by
    intro e he text htext
    obtain ⟨x, vs, hx⟩ := hsteady e he d.scope
    rw [hx d rfl] at htext
    exact ⟨vs, htext ▸ hx d rfl⟩
  cases conditions with
  | nil =>
    refine ⟨by simp [conjoined?, renderFilter], hbinds, fun outs houts ↦ ?_⟩
    cases houts
    rfl
  | cons e es =>
    obtain ⟨hfirst, hrest⟩ := List.forall_mem_cons.mp hsteady
    refine ⟨?_, hbinds, fun outs houts ↦ ?_⟩
    · have hall := forall₂_congr fun e' he' ↦ hscoped (h e' he')
      obtain ⟨he, hes⟩ := List.forall_mem_cons.mp h
      rw [hall, List.forall_mem_cons, ← Expr.foldl_both_wellScoped_iff]
      exact hscoped (Expr.foldl_both_customFree he hes)
    · cases houts with
      | cons hout houts =>
        have hes := (List.forall₂_and_left es _).mpr ⟨hrest, houts⟩
        have hgives := hes.imp fun _ _ h ↦ h.1.gives_of_outcome h.2
        exact Expr.foldl_both_gives (hfirst.gives_of_outcome hout) hgives d rfl

namespace Join

/-- The conditions that a join has after some more were added. -/
def conditionsWith (j : Join) (more : List (Option (Item .filter))) : List Expr :=
  j.on?.toList ++ more.filterMap (Option.map Item.expr)

/-- Add conditions to a join one after the other. -/
def augmentAll (j : Join) (more : List (Option (Item .filter))) : Join :=
  more.foldl (fun j condition ↦ j.augment (condition.map Item.expr)) j

theorem augment_eq (j : Join) (more : Option Expr) :
    j.augment more = { j with on? := conjoined? (j.on?.toList ++ more.toList) } := by
  obtain ⟨table, kind, on?⟩ := j
  cases on? <;> cases more <;> rfl

theorem augmentAll_eq (j : Join) (more : List (Option (Item .filter))) :
    j.augmentAll more = { j with on? := conjoined? (j.conditionsWith more) } := by
  induction more generalizing j with
  | nil =>
    obtain ⟨table, kind, on?⟩ := j
    cases on? <;> rfl
  | cons condition more ih =>
    have hstep : j.augmentAll (condition :: more) =
        (j.augment (condition.map Item.expr)).augmentAll more := rfl
    rw [hstep, ih, augment_eq]
    simp only [conditionsWith, conjoined?_toList_append, List.filterMap_cons]
    cases condition <;> simp

end Join

namespace Query

def augmentJoinAll (q : Query) (key : String) (more : List (Option (Item .filter))) : Query :=
  more.foldl (fun q condition ↦ q.augmentJoin key condition) q

variable {q : Query} {key : String}

theorem augmentJoin_eq_self {condition : Option (Item .filter)}
    (h : ∀ j ∈ q.joins, j.targets key = true → j.augment (condition.map Item.expr) = j) :
    q.augmentJoin key condition = q := by
  cases q
  rw [augmentJoin, replaceFirst_eq_self h]

theorem augmentJoin_none (q : Query) (key : String) : q.augmentJoin key none = q := by
  refine augmentJoin_eq_self fun j _ _ ↦ ?_
  obtain ⟨table, kind, on?⟩ := j
  cases on? <;> rfl

theorem augmentJoinAll_of_forall (h : ∀ j ∈ q.joins, j.targets key = false)
    (more : List (Option (Item .filter))) : q.augmentJoinAll key more = q := by
  induction more with
  | nil => rfl
  | cons condition more ih =>
    have hstep : q.augmentJoin key condition = q :=
      augmentJoin_eq_self fun j hj htargets ↦ by simp [h j hj] at htargets
    rw [augmentJoinAll, List.foldl_cons, hstep]
    exact ih

/-- By induction on the conditions: a join that gets one more is still the first of its table. -/
theorem augmentJoinAll_of_first {before after : List Join} {j : Join}
    (hjoins : q.joins = before ++ j :: after) (hbefore : ∀ k ∈ before, k.targets key = false)
    (hj : j.targets key = true) (more : List (Option (Item .filter))) :
    q.augmentJoinAll key more = { q with joins := before ++ j.augmentAll more :: after } := by
  induction more generalizing q j with
  | nil =>
    obtain ⟨select, sources, joins, filters, groups, havings, orders, limits⟩ := q
    obtain rfl : joins = before ++ j :: after := hjoins
    rfl
  | cons condition more ih =>
    have hstep : q.augmentJoin key condition =
        { q with joins := before ++ j.augment (condition.map Item.expr) :: after } := by
      rw [augmentJoin, hjoins, replaceFirst_append_cons _ hbefore hj]
    have htargets : (j.augment (condition.map Item.expr)).targets key = true := by
      rw [Join.augment_eq]
      exact hj
    rw [augmentJoinAll, List.foldl_cons, hstep]
    exact ih rfl htargets

end Query

/-- Conditions that are added to a join by a name collect at the first join that the name targets,
and nowhere if there is none.  That join keeps its table and its kind, a condition that is absent
adds nothing, and what is there in the end stands for all the conditions. -/
theorem augmentJoinAll_accumulates (q : Query) (key : String)
    (more : List (Option (Item .filter))) :
    q.augmentJoin key none = q ∧
      ((∀ j ∈ q.joins, j.targets key = false) → q.augmentJoinAll key more = q) ∧
      ∀ before j after, q.joins = before ++ j :: after →
        (∀ k ∈ before, k.targets key = false) → j.targets key = true →
        ∃ on?, q.augmentJoinAll key more =
            { q with joins := before ++ { j with on? := on? } :: after } ∧
          ((∀ e ∈ j.conditionsWith more, e.CustomFree) →
            ∀ d, Accumulates on? (j.conditionsWith more) d) := by
  refine ⟨q.augmentJoin_none key, fun h ↦ Query.augmentJoinAll_of_forall h more, ?_⟩
  intro before j after hjoins hbefore hj
  refine ⟨conjoined? (j.conditionsWith more), ?_, accumulates_conjoined?⟩
  rw [Query.augmentJoinAll_of_first hjoins hbefore hj, Join.augmentAll_eq]

/-- The users with their accounts and, under a condition, their orders. -/
def Query.orderingUsers : Query :=
  { Query.empty with
    sources := [⟨"users", some "u"⟩]
    joins := [⟨⟨"accounts", some "a"⟩, .left, none⟩,
      ⟨⟨"orders", some "o"⟩, .left, some (Shorthand.equal "o.user" "u.id")⟩] }

def Condition.isPaid : Condition :=
  .combining (.infixed .equal) [Shorthand.reference "o.state", Shorthand.bound "paid"]

def Condition.isLarge : Condition :=
  .combining (.infixed .greater) [Shorthand.reference "o.total", Shorthand.bound (100 : Int32)]

theorem orderingUsers_accumulates :
    ∃ on?, Query.orderingUsers.augmentJoinAll "orders"
        [some (.ofCondition .isPaid), none, some (.ofCondition .isLarge)] =
          { Query.orderingUsers with
            joins := [⟨⟨"accounts", some "a"⟩, .left, none⟩, ⟨⟨"orders", some "o"⟩, .left, on?⟩] } ∧
      (renderFilter on?).outcome (Query.orderingUsers.enter .fresh) =
        (.ok "(((o.user = u.id) AND (o.state = ?)) AND (o.total > ?))",
          (Query.orderingUsers.enter .fresh).bindAll [.text "paid", .int32 100]) := by
  obtain ⟨on?, hquery, hshows⟩ := (augmentJoinAll_accumulates .orderingUsers "orders"
    [some (.ofCondition .isPaid), none, some (.ofCondition .isLarge)]).2.2
      [⟨⟨"accounts", some "a"⟩, .left, none⟩] _ [] rfl (by decide) rfl
  refine ⟨on?, hquery, ?_⟩
  refine (hshows (by decide) (Query.orderingUsers.enter .fresh)).shows
    [("(o.user = u.id)", []), ("(o.state = ?)", [.text "paid"]), ("(o.total > ?)", [.int32 100])] ?_
  exact .cons rfl (.cons rfl (.cons rfl .nil))

end ScopedSelect
