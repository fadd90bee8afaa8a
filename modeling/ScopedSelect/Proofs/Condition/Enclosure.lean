import ScopedSelect.Proofs.Condition.Series
import ScopedSelect.Proofs.Render.Balance
import ScopedSelect.Proofs.Text.Wrapping
import ScopedSelect.Shorthand.Basic

/-!
# Recognising an enclosed condition

A condition encloses its text in parentheses.  A join leaves that pair alone and a search takes it
away, and both recognise it by one scan over the finished text.  The scan counts all parentheses,
those of a written literal as well, so that it recognises the pair exactly if what stands inside is
balanced (`condition_enclosed`).  This is so if all texts that come with the condition are balanced.
-/

namespace ScopedSelect

open Rendering

theorem joinText_parenthesized (table inner : String) :
    joinText table (Text.parenthesized inner) =
      table ++ " ON " ++ if Text.Balanced inner then Text.parenthesized inner
        else Text.parenthesized (Text.parenthesized inner) := by
  have hshown : Text.parenthesized inner ≠ "" := by
    simp [Text.parenthesized]
  rw [joinText, if_neg hshown]
  by_cases h : Text.Balanced inner
  · rw [if_pos (Text.isWrapped_parenthesized_iff.mpr h), if_pos h]
  · have hwrapped : ¬Text.isWrapped (Text.parenthesized inner) = true :=
      fun hwrapped ↦ h (Text.isWrapped_parenthesized_iff.mp hwrapped)
    rw [if_neg hwrapped, if_neg h]

/-- The text of a search, from what it reads as columns and as words. -/
def searchText (columns words : String) : String :=
  Text.parenthesized ("MATCH(" ++ columns ++ ") AGAINST (" ++ words ++ " IN BOOLEAN MODE)")

namespace Folding

variable {f : Folding} {texts : List String}

theorem exists_of_text_ne (h : f.text texts ≠ "") :
    ∃ inner ∈ f.accumulate texts, f.text texts = Text.parenthesized inner := by
  unfold text at h ⊢
  cases hresult : f.accumulate texts with
  | none => simp [hresult, enclose] at h
  | some inner =>
    have hinner : inner ≠ "" := by
      rintro rfl
      simp [hresult, enclose] at h
    exact ⟨inner, rfl, enclose_of_ne hinner⟩

theorem text_fullText (columns words : String) :
    (combining .fullText).text [columns, words] =
      searchText (Text.stripParentheses columns) (Text.stripParentheses words) := by
  have haccumulated : (combining .fullText).accumulate [columns, words] =
      some (Combinator.fullText.reduce columns words) := rfl
  have hshown : Combinator.fullText.reduce columns words ≠ "" := by
    simp [Combinator.reduce]
  rw [text, haccumulated, enclose_of_ne hshown]
  rfl

end Folding

section Outcomes

variable {d d' d'' : Domain}

theorem TableDef.outcome_render (table : TableDef) (d : Domain) :
    table.render.outcome d = ((table.render.outcome d).1, d) := by
  rw [TableDef.render, outcome_bind, outcome_ofScope]
  cases table.text d.scope <;> rfl

theorem Join.outcome_render {table : TableDef} {kind : JoinKind} {e : Expr}
    {shown condition : String} (htable : (table.render.outcome d).1 = .ok shown)
    (he : e.render.outcome d = (.ok condition, d')) :
    (Join.render ⟨table, kind, some e⟩).outcome d = (.ok (joinText shown condition), d') := by
  rw [Join.render, outcome_bind, TableDef.outcome_render, htable]
  simp only [renderFilter, outcome_bind, he, outcome_pure]

theorem Shorthand.outcome_fullText {e e' : Expr} {columns words : String}
    (he : e.render.outcome d = (.ok columns, d')) (he' : e'.render.outcome d' = (.ok words, d'')) :
    (fullText e e').render.outcome d =
      (.ok (searchText (Text.stripParentheses columns) (Text.stripParentheses words)), d'') := by
  have hrender : (fullText e e').render = do
      let columns ← e.render
      let words ← e'.render
      return (Folding.combining .fullText).text [columns, words] :=
    Expr.render_pair (.combining .fullText) e e'
  rw [hrender, ← Folding.text_fullText, outcome_bind, he]
  simp only [outcome_bind, he', outcome_pure]

theorem Condition.exists_texts {w : Condition} {c : String}
    (h : w.render.outcome d = (.ok c, d')) :
    ∃ texts, (renderAll w.operands).outcome d = (.ok texts, d') ∧ c = w.folding.text texts := by
  obtain ⟨texts, hturn, hc⟩ := Condition.outcome_render_eq_ok_iff.mp h
  exact ⟨texts, rendersInTurn_iff.mp hturn, hc⟩

end Outcomes

/-- Operands that have texts have balanced ones, and so is what becomes of them before it is
enclosed. -/
theorem Condition.balanced_of_bracketed {w : Condition} {d d' : Domain} {texts : List String}
    (h : (Expr.condition w).Everywhere Expr.Bracketed) (hs : d.scope.Bracketed)
    (htexts : (renderAll w.operands).outcome d = (.ok texts, d')) :
    ∀ inner ∈ w.folding.accumulate texts, Text.Balanced inner := by
  have hoperands (e : Expr) (he : e ∈ w.operands) : e.Everywhere Expr.Bracketed :=
    h.of_mem_parts he
  have hfails : (w.operands.mapM Expr.render).FailsBy d.scope
      (w.operands.flatMap (Expr.checks d.scope)) :=
    failsBy_compositional.mapM fun e he ↦
      failsBy_compositional.render (Expr.Bracketed.everywhere_keepsScope (hoperands e he)) d.scope
  have hagree (k : Nat) (e : Expr) (he : e ∈ w.operands) :=
    balanced_congruence.agree.1 e (hoperands e he) d.scope hs k
  rw [renderAll_eq_mapM] at htexts
  have hpasses := (hfails.isOk_iff rfl).mp ⟨texts, congrArg Prod.fst htexts⟩
  have hyields : (w.operands.mapM Expr.render).Yields d.scope
      fun texts ↦ ∀ text ∈ texts, Text.Balanced text :=
    (Agree.mapM hagree 0).yields hfails hpasses fun _ _ _ _ hlinked ↦ balanced_of_linked hlinked
  obtain ⟨texts', htexts', hbalanced⟩ := hyields d rfl
  obtain rfl : texts = texts' := by
    rw [htexts] at htexts'
    exact Except.ok.inj htexts'
  exact Folding.balanced_accumulate h.here.plain h.here.texts hbalanced

/-- A condition that has a text encloses it in one pair of parentheses.  A join writes it as it is,
and a search reads it without that pair, on whichever side it stands, if what stands inside is
balanced; otherwise the join adds a second pair and the search keeps the first.  It is balanced if
all texts that come with the condition are, and the names of the visible tables. -/
theorem condition_enclosed (w : Condition) (d d' : Domain) (c : String)
    (hrender : w.render.outcome d = (.ok c, d')) (hshown : c ≠ "") :
    ∃ inner, c = Text.parenthesized inner ∧
      (∀ (table : TableDef) (kind : JoinKind) (shown : String),
        (table.render.outcome d).1 = .ok shown →
          (Join.render ⟨table, kind, some (.condition w)⟩).outcome d =
            (.ok (shown ++ " ON " ++
              if Text.Balanced inner then c else Text.parenthesized c), d')) ∧
      (∀ (e : Expr) (words : String) (d'' : Domain), e.render.outcome d' = (.ok words, d'') →
        (Shorthand.fullText w e).render.outcome d =
          (.ok (searchText (if Text.Balanced inner then inner else c)
            (Text.stripParentheses words)), d'')) ∧
      (∀ (e : Expr) (columns : String) (d₀ : Domain), e.render.outcome d₀ = (.ok columns, d) →
        (Shorthand.fullText e w).render.outcome d₀ =
          (.ok (searchText (Text.stripParentheses columns)
            (if Text.Balanced inner then inner else c)), d')) ∧
      ((Expr.condition w).Everywhere Expr.Bracketed → d.scope.Bracketed →
        Text.Balanced inner) := by
  obtain ⟨texts, htexts, rfl⟩ := Condition.exists_texts hrender
  obtain ⟨inner, hinner, henclosed⟩ := Folding.exists_of_text_ne hshown
  have hcondition : (Expr.condition w).render.outcome d = (.ok (Text.parenthesized inner), d') := by
    rw [Expr.render, hrender, henclosed]
  rw [henclosed]
  refine ⟨inner, rfl, fun table kind shown htable ↦ ?_, fun e words d'' he ↦ ?_,
    fun e columns d₀ he ↦ ?_, fun hbracketed hscope ↦ ?_⟩
  · rw [Join.outcome_render htable hcondition, joinText_parenthesized]
  · rw [← Text.stripParentheses_parenthesized]
    exact Shorthand.outcome_fullText hcondition he
  · rw [← Text.stripParentheses_parenthesized]
    exact Shorthand.outcome_fullText he hcondition
  · exact Condition.balanced_of_bracketed hbracketed hscope htexts inner hinner

/-- Whether a note has a mark, which is written into the text. -/
def Condition.marked (mark : String) : Condition :=
  .combining (.infixed .equal) [.columnRef ⟨"mark", some ⟨"n"⟩⟩, .literal (.text mark)]

/-- All accounts with their notes of one mark. -/
def Query.markedNotes (mark : String) : Query :=
  { Query.empty with
    sources := [⟨"accounts", some "a"⟩]
    joins := [⟨⟨"notes", some "n"⟩, .plain, some (.condition (.marked mark))⟩] }

theorem paidMark_enclosed :
    let d := (Query.markedNotes "(paid)").enter .fresh
    (Expr.condition (.marked "(paid)")).Everywhere Expr.Bracketed ∧ d.scope.Bracketed ∧
      (Condition.marked "(paid)").render.outcome d = (.ok "(n.mark = '(paid)')", d) ∧
      (Join.render ⟨⟨"notes", some "n"⟩, .left, some (.condition (.marked "(paid)"))⟩).outcome d =
        (.ok "notes AS n ON (n.mark = '(paid)')", d) := by
  intro d
  have hplain : (Expr.condition (.marked "(paid)")).Everywhere (·.callsBack = false) := by decide
  have htexts : (Expr.condition (.marked "(paid)")).Everywhere
      fun e ↦ ∀ t ∈ e.ownTexts, Text.Balanced t := by decide
  have hbracketed : (Expr.condition (.marked "(paid)")).Everywhere Expr.Bracketed :=
    fun e he ↦ ⟨hplain e he, htexts e he⟩
  have hscope : ∀ t ∈ d.scope.tables, Text.Balanced t.displayName := by decide
  have hrender : (Condition.marked "(paid)").render.outcome d =
      (.ok "(n.mark = '(paid)')", d) := rfl
  obtain ⟨inner, -, hjoin, -, -, hbalanced⟩ := condition_enclosed _ d d _ hrender (by decide)
  have hjoined := hjoin ⟨"notes", some "n"⟩ .left "notes AS n" rfl
  rw [if_pos (hbalanced hbracketed hscope)] at hjoined
  exact ⟨hbracketed, hscope, hrender, hjoined⟩

/-- No function of the caller is applied, and only a literal may have a parenthesis in it. -/
def Expr.Unparenthesized (e : Expr) : Prop :=
  e.callsBack = false ∧
    (e.literal? = none → ∀ t ∈ e.ownTexts, '(' ∉ t.toList ∧ ')' ∉ t.toList)

instance : DecidablePred Expr.Unparenthesized := fun e ↦
  inferInstanceAs (Decidable (e.callsBack = false ∧
    (e.literal? = none → ∀ t ∈ e.ownTexts, '(' ∉ t.toList ∧ ')' ∉ t.toList)))

/-- A parenthesis in a literal seems to close the group that the condition opens. -/
theorem closingMark_wrapped :
    (¬∀ (w : Condition) (d d' : Domain) (c : String),
      (Expr.condition w).Everywhere Expr.Unparenthesized →
      (∀ t ∈ d.scope.tables, '(' ∉ t.displayName.toList ∧ ')' ∉ t.displayName.toList) →
      w.render.outcome d = (.ok c, d') → c ≠ "" →
        (∀ (table : TableDef) (kind : JoinKind) (shown : String),
          (table.render.outcome d).1 = .ok shown →
            (Join.render ⟨table, kind, some (.condition w)⟩).outcome d =
              (.ok (shown ++ " ON " ++ c), d')) ∧
        ∃ inner, c = Text.parenthesized inner ∧ Text.stripParentheses c = inner) ∧
    (Query.markedNotes ")").build =
      .ok ("FROM accounts AS a JOIN notes AS n ON ((n.mark = ')'))", []) ∧
    ((Shorthand.fullText (Condition.marked ")") (Shorthand.bound "late")).render.outcome
      ((Query.markedNotes ")").enter .fresh)).1 =
        .ok "(MATCH((n.mark = ')')) AGAINST (? IN BOOLEAN MODE))" := by
  refine ⟨fun h ↦ ?_, rfl, rfl⟩
  let d := (Query.markedNotes ")").enter .fresh
  obtain ⟨hjoin, -⟩ := h (.marked ")") d d "(n.mark = ')')" (by decide) (by decide) rfl (by decide)
  have hwrapped : ((Join.render ⟨⟨"notes", some "n"⟩, .plain,
      some (.condition (.marked ")"))⟩).outcome d).1 = .ok "notes AS n ON ((n.mark = ')'))" := rfl
  rw [hjoin ⟨"notes", some "n"⟩ .plain "notes AS n" rfl] at hwrapped
  exact absurd (Except.ok.inj hwrapped) (by decide)

end ScopedSelect
