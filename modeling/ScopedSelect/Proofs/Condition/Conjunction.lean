import Mathlib.Data.List.Basic
import ScopedSelect.Proofs.Condition.Joining
import ScopedSelect.Proofs.Render.Endings
import ScopedSelect.Shorthand.Query

/-!
# Conditions one by one, and their conjunction

Several conditions can be added to a query one by one, or as one condition that joins them.  Both
render the same texts in the same order, so that they bind the same values and fail alike.  They
differ in what becomes of a condition without text: the clause leaves it out, while the conjunction
writes its operator beside it.  So the texts agree exactly if every condition shows, or if there is
one at most (`filters_upToPair_iff`).
-/

namespace ScopedSelect

namespace Text

/-- The second text is the first one, or the first one with a pair of parentheses in it. -/
def UpToPair (s t : String) : Prop :=
  s = t ∨ ∃ front inner back, s = front ++ inner ++ back ∧ t = front ++ parenthesized inner ++ back

theorem length_parenthesized (s : String) : (parenthesized s).length = s.length + 2 := by
  simp [← String.length_toList]

theorem UpToPair.length_le {s t : String} (h : UpToPair s t) : t.length ≤ s.length + 2 := by
  rcases h with rfl | ⟨front, inner, back, rfl, rfl⟩
  · omega
  · simp only [String.length_append, length_parenthesized]
    omega

/-- The texts of which something is seen. -/
def shown (texts : List String) : List String :=
  texts.filter (· ≠ "")

section Shown

variable {texts : List String} {text : String}

@[simp] theorem shown_nil : shown [] = [] := rfl

@[simp] theorem shown_cons_empty : shown ("" :: texts) = shown texts := rfl

theorem shown_cons_of_ne (h : text ≠ "") : shown (text :: texts) = text :: shown texts :=
  List.filter_cons_of_pos (by simp [h])

theorem shown_append (texts texts' : List String) :
    shown (texts ++ texts') = shown texts ++ shown texts' :=
  List.filter_append ..

theorem shown_of_notMem (h : "" ∉ texts) : shown texts = texts := by
  refine List.filter_eq_self.mpr fun text htext ↦ ?_
  simpa using ne_of_mem_of_not_mem htext h

theorem shown_parenthesized (s : String) : shown [parenthesized s] = [parenthesized s] := by
  refine shown_cons_of_ne fun h ↦ ?_
  simpa using congrArg String.toList h

end Shown

section Joined

variable (separator : String) {texts : List String} {text : String}

/-- The length of the texts with a separator after each of them. -/
def extent : List String → Nat
  | [] => 0
  | text :: texts => text.length + separator.length + extent texts

theorem length_intercalate_add (h : texts ≠ []) :
    (separator.intercalate texts).length + separator.length = extent separator texts := by
  induction texts with
  | nil => exact absurd rfl h
  | cons text texts ih =>
    cases texts with
    | nil => simp [extent]
    | cons next texts =>
      have hnext := ih (by simp)
      simp only [String.intercalate_cons_cons, String.length_append, extent] at hnext ⊢
      omega

theorem extent_shown_add (texts : List String) :
    extent separator (shown texts) + texts.count "" * separator.length =
      extent separator texts := by
  induction texts with
  | nil => simp [extent]
  | cons text texts ih =>
    by_cases htext : text = ""
    · subst htext
      rw [shown_cons_empty, List.count_cons_self, Nat.add_mul]
      simp only [extent, String.length_empty]
      omega
    · rw [shown_cons_of_ne htext, List.count_cons_of_ne htext]
      simp only [extent]
      omega

/-- Where a text without characters is left out, the separator beside it is lost. -/
theorem length_intercalate_shown_lt (hseparator : 0 < separator.length) (hempty : "" ∈ texts)
    (hseveral : 2 ≤ texts.length) :
    (separator.intercalate (shown texts)).length < (separator.intercalate texts).length := by
  have hwhole := length_intercalate_add separator (List.ne_nil_of_mem hempty)
  have hextent := extent_shown_add separator texts
  by_cases hshown : shown texts = []
  · have hall : texts.count "" = texts.length := by
      refine List.count_eq_length.mpr fun text htext ↦ ?_
      have hnothing : text = "" := by simpa using List.filter_eq_nil_iff.mp hshown text htext
      exact hnothing.symm
    have hlost : 2 * separator.length ≤ texts.count "" * separator.length :=
      Nat.mul_le_mul_right _ (by omega)
    rw [hshown, String.intercalate_nil, String.length_empty]
    omega
  · have hpart := length_intercalate_add separator hshown
    have hlost : separator.length ≤ texts.count "" * separator.length :=
      Nat.le_mul_of_pos_left _ (List.count_pos_iff.mpr hempty)
    omega

end Joined
end Text

open Text (shown UpToPair)

namespace Clause

variable (c : Clause) (earlier added : List String)

/-- What stands before the text of one more entity. -/
def lead : String :=
  match shown earlier with
  | [] => c.keyword
  | shown => c.keyword ++ c.separator.intercalate shown ++ c.separator

theorem assemble_eq (texts : List String) :
    c.assemble texts =
      match shown texts with
      | [] => ""
      | shown => c.keyword ++ c.separator.intercalate shown := rfl

variable {added} in
theorem assemble_append (hadded : shown added ≠ []) :
    c.assemble (earlier ++ added) = c.lead earlier ++ c.separator.intercalate (shown added) := by
  rw [assemble_eq, lead, Text.shown_append]
  obtain ⟨text, texts, hshown⟩ := List.exists_cons_of_ne_nil hadded
  rw [hshown]
  cases shown earlier with
  | nil => rfl
  | cons first rest =>
    simp only [List.cons_append]
    rw [← List.cons_append, String.intercalate_append_of_ne_nil (by simp) (by simp)]
    simp only [String.append_assoc]

theorem length_assemble_le : (c.assemble earlier).length ≤ (c.lead earlier).length := by
  rw [assemble_eq, lead]
  split
  · simp
  · simp only [String.length_append]
    omega

theorem length_assemble_append_le :
    (c.assemble (earlier ++ added)).length ≤
      (c.lead earlier).length + (c.separator.intercalate (shown added)).length := by
  by_cases hadded : shown added = []
  · have hsame : c.assemble (earlier ++ added) = c.assemble earlier := by
      rw [assemble_eq, assemble_eq, Text.shown_append, hadded, List.append_nil]
    rw [hsame]
    exact Nat.le_add_right_of_le (c.length_assemble_le earlier)
  · have hwhole := congrArg String.length (c.assemble_append earlier hadded)
    rw [String.length_append] at hwhole
    exact Nat.le_of_eq hwhole

end Clause

section Conjunctions

/-- The text of a conjunction: the texts of all conditions, joined and enclosed. -/
def conjunctionText (texts : List String) : String :=
  Folding.enclose (joined? " AND " texts)

theorem Folding.text_conjunction (texts : List String) :
    (Folding.combining .conjunction).text texts = conjunctionText texts :=
  text_combining rfl texts

variable {earlier added : List String}

theorem conjunctionText_of_ne (h : " AND ".intercalate added ≠ "") :
    conjunctionText added = Text.parenthesized (" AND ".intercalate added) := by
  cases added with
  | nil => simp at h
  | cons text texts => exact Folding.enclose_of_ne h

theorem assemble_conjunctionText (h : " AND ".intercalate added ≠ "") :
    Clause.filter.assemble (earlier ++ [conjunctionText added]) =
      Clause.filter.lead earlier ++ Text.parenthesized (" AND ".intercalate added) := by
  have hshown := Text.shown_parenthesized (" AND ".intercalate added)
  rw [conjunctionText_of_ne h, Clause.assemble_append _ _ (by simp [hshown]), hshown,
    String.intercalate_singleton]

/-- Before the conjunction stands what stands before the first condition. -/
theorem upToPair_assemble (h : added.length ≤ 1 ∨ "" ∉ added) :
    UpToPair (Clause.filter.assemble (earlier ++ added))
      (Clause.filter.assemble (earlier ++ [conjunctionText added])) := by
  rcases added with _ | ⟨text, texts⟩
  · refine .inl ?_
    rw [List.append_nil, Clause.assemble_eq, Clause.assemble_eq, Text.shown_append]
    simp [conjunctionText, joined?, Folding.enclose]
  by_cases hempty : "" ∈ text :: texts
  · obtain rfl : texts = [] := by simpa [hempty] using h
    obtain rfl : "" = text := List.mem_singleton.mp hempty
    exact .inl rfl
  · have hshown : shown (text :: texts) = text :: texts := Text.shown_of_notMem hempty
    have hjoined : " AND ".intercalate (text :: texts) ≠ "" :=
      Text.intercalate_ne_empty _ (List.ne_of_not_mem_cons hempty).symm
    rw [Clause.assemble_append _ _ (by simp [hshown]), hshown, assemble_conjunctionText hjoined]
    exact .inr ⟨Clause.filter.lead earlier, " AND ".intercalate (text :: texts), "",
      (String.append_empty ..).symm, (String.append_empty ..).symm⟩

/-- Beside a condition without text the conjunction has more than a pair of parentheses. -/
theorem upToPair_assemble_iff :
    UpToPair (Clause.filter.assemble (earlier ++ added))
        (Clause.filter.assemble (earlier ++ [conjunctionText added])) ↔
      added.length ≤ 1 ∨ "" ∉ added := by
  refine ⟨fun h ↦ ?_, upToPair_assemble⟩
  by_contra hneither
  rw [not_or, not_not, Nat.not_le] at hneither
  obtain ⟨hseveral, hempty⟩ := hneither
  have hshorter : (" AND ".intercalate (shown added)).length < (" AND ".intercalate added).length :=
    Text.length_intercalate_shown_lt _ (by decide) hempty hseveral
  have hjoined : " AND ".intercalate added ≠ "" := by
    intro hnothing
    simp [hnothing] at hshorter
  have hpair := h.length_le
  rw [assemble_conjunctionText hjoined, String.length_append, Text.length_parenthesized] at hpair
  have hseparate : (Clause.filter.assemble (earlier ++ added)).length ≤
      (Clause.filter.lead earlier).length + (" AND ".intercalate (shown added)).length :=
    Clause.filter.length_assemble_append_le earlier added
  omega

end Conjunctions

namespace Query

/-- The texts of the filters of a query, and of conditions after them. -/
def filterTexts (q : Query) (conditions : List Expr) : Rendering (List String × List String) := do
  let earlier ← renderFilters q.filters
  let added ← renderAll conditions
  return (earlier, added)

theorem foldlM_filter {conditions : List Expr} (h : ∀ e ∈ conditions, e.supports .filter = true)
    (q : Query) :
    conditions.foldlM Query.filter q =
      .ok { q with filters := q.filters ++ conditions.map some } := by
  induction conditions generalizing q with
  | nil =>
    cases q
    simp [pure, Except.pure]
  | cons e conditions ih =>
    obtain ⟨he, hrest⟩ := List.forall_mem_cons.mp h
    have hfirst : q.filter e = .ok { q with filters := q.filters ++ [some e] } := by
      simp only [Query.filter, Item.ofExpr, dif_pos he]
      rfl
    rw [List.foldlM_cons, hfirst]
    exact (ih hrest _).trans (by simp)

theorem renderClause_filters (q : Query) (conditions : List Expr) :
    { q with filters := q.filters ++ conditions.map some }.renderClause .filter = do
      let (earlier, added) ← q.filterTexts conditions
      return Clause.filter.assemble (earlier ++ added) := by
  have hfilter : Entity.renderInClause .filter ∘ some = Expr.render := rfl
  simp [renderClause, Clause.render, Clause.headed, entities, filterTexts, renderFilters_eq_mapM,
    renderAll_eq_mapM, List.mapM_map, hfilter]

theorem renderClause_conjunction (q : Query) (conditions : List Expr) :
    { q with filters := q.filters ++ [some (Shorthand.allOf conditions)] }.renderClause .filter = do
      let (earlier, added) ← q.filterTexts conditions
      return Clause.filter.assemble (earlier ++ [conjunctionText added]) := by
  have hfilter : Entity.renderInClause .filter (some (Shorthand.allOf conditions)) =
      (do return conjunctionText (← renderAll conditions)) := by
    simp [Entity.renderInClause, Entity.render, renderFilter, Shorthand.allOf,
      Shorthand.combined, Expr.render, Condition.combining, Condition.render,
      Folding.text_conjunction]
  simp [renderClause, Clause.render, Clause.headed, entities, filterTexts, renderFilters_eq_mapM,
    hfilter]

end Query

/-- Conditions that are added to a query one by one, and their conjunction, are accepted alike.  The
two queries leave the same domain, with the same values bound, and fail by the same cause; so do
their clauses, in every domain.  The texts of the clauses are the same up to the pair of parentheses
of the conjunction exactly if every condition shows, or if there is one at most. -/
theorem filters_upToPair_iff (q : Query) (conditions : List Expr)
    (hsupported : ∀ e ∈ conditions, e.supports .filter = true) :
    ∃ separate conjoined : Query,
      conditions.foldlM Query.filter q = .ok separate ∧
      q.filter (Shorthand.allOf conditions) = .ok conjoined ∧
      (∀ d, (separate.render d).2 = (conjoined.render d).2 ∧
        ∀ e, (separate.render d).1 = .error e ↔ (conjoined.render d).1 = .error e) ∧
      ∀ d, match (q.filterTexts conditions).outcome d with
        | (.error e, d') =>
          (separate.renderClause .filter).outcome d = (.error e, d') ∧
            (conjoined.renderClause .filter).outcome d = (.error e, d')
        | (.ok (earlier, added), d') =>
          let text := Clause.filter.assemble (earlier ++ added)
          let text' := Clause.filter.assemble (earlier ++ [conjunctionText added])
          (separate.renderClause .filter).outcome d = (.ok text, d') ∧
            (conjoined.renderClause .filter).outcome d = (.ok text', d') ∧
            (UpToPair text text' ↔ added.length ≤ 1 ∨ "" ∉ added) := by
  let separate : Query := { q with filters := q.filters ++ conditions.map some }
  let conjoined : Query := { q with filters := q.filters ++ [some (Shorthand.allOf conditions)] }
  have hseparate := q.renderClause_filters conditions
  have hconjoined := q.renderClause_conjunction conditions
  refine ⟨separate, conjoined, Query.foldlM_filter hsupported q, rfl, fun d ↦ ?_, fun d ↦ ?_⟩
  · have hclauses (c : Clause) :
        (separate.renderClause c).EndAlike (conjoined.renderClause c) := by
      cases c with
      | filter =>
        rw [hseparate, hconjoined]
        exact .map (q.filterTexts conditions) _ _
      | _ => exact .refl _
    have hnested : separate.renderNested.EndAlike conjoined.renderNested :=
      Query.renderNested_endAlike rfl hclauses
    exact Query.render_of_endAlike hnested d
  · rw [hseparate, hconjoined]
    simp only [Rendering.outcome_bind]
    rcases (q.filterTexts conditions).outcome d with ⟨e | ⟨earlier, added⟩, d'⟩
    · exact ⟨rfl, rfl⟩
    · exact ⟨rfl, rfl, upToPair_assemble_iff⟩

/-- All accounts, before any condition is added. -/
def Query.bareAccounts : Query :=
  { Query.empty with sources := [⟨"accounts", some "a"⟩] }

/-- Whether an account has a status, which is bound. -/
def Expr.hasStatus : Expr :=
  .condition (.combining (.infixed .equal) [
    .columnRef ⟨"status", some ⟨"a"⟩⟩, .decorated (.literal (.text "open")) .bind])

/-- Whether an account was never closed. -/
def Expr.neverClosed : Expr :=
  .condition (.combining .isNull [.columnRef ⟨"closed", some ⟨"a"⟩⟩, .nothing])

theorem bareAccounts_conjoined :
    let conditions := [Expr.hasStatus, .neverClosed]
    (∀ e ∈ conditions, e.supports .filter = true) ∧
      ∃ separate conjoined : Query,
        conditions.foldlM Query.filter .bareAccounts = .ok separate ∧
        Query.bareAccounts.filter (Shorthand.allOf conditions) = .ok conjoined ∧
        separate.build = .ok
          ("FROM accounts AS a WHERE (a.status = ?) AND (a.closed IS NULL)", [.text "open"]) ∧
        conjoined.build = .ok
          ("FROM accounts AS a WHERE ((a.status = ?) AND (a.closed IS NULL))", [.text "open"]) ∧
        UpToPair "WHERE (a.status = ?) AND (a.closed IS NULL)"
          "WHERE ((a.status = ?) AND (a.closed IS NULL))" := by
  intro conditions
  have hsupported : ∀ e ∈ conditions, e.supports .filter = true := by decide
  obtain ⟨separate, conjoined, hseparate, hconjoined, -, hclauses⟩ :=
    filters_upToPair_iff .bareAccounts conditions hsupported
  refine ⟨hsupported, separate, conjoined, hseparate, hconjoined, ?_, ?_, ?_⟩
  · obtain rfl := Except.ok.inj hseparate
    rfl
  · obtain rfl := Except.ok.inj hconjoined
    rfl
  · exact (hclauses (Query.bareAccounts.enter .fresh)).2.2.mpr (.inr (by decide))

/-- Between two conditions, one without text leaves two operators side by side. -/
theorem emptyCondition_dangles :
    (¬∀ (q : Query) (conditions : List Expr), (∀ e ∈ conditions, e.supports .filter = true) →
      ∀ separate conjoined : Query, conditions.foldlM Query.filter q = .ok separate →
        q.filter (Shorthand.allOf conditions) = .ok conjoined →
        ∀ (d : Domain) (text text' : String),
          ((separate.renderClause .filter).outcome d).1 = .ok text →
          ((conjoined.renderClause .filter).outcome d).1 = .ok text' → UpToPair text text') ∧
    ∃ separate conjoined : Query,
      [Expr.hasStatus, .nothing, .neverClosed].foldlM Query.filter .bareAccounts = .ok separate ∧
      Query.bareAccounts.filter (Shorthand.allOf [.hasStatus, .nothing, .neverClosed]) =
        .ok conjoined ∧
      separate.build = .ok
        ("FROM accounts AS a WHERE (a.status = ?) AND (a.closed IS NULL)", [.text "open"]) ∧
      conjoined.build = .ok
        ("FROM accounts AS a WHERE ((a.status = ?) AND  AND (a.closed IS NULL))",
          [.text "open"]) := by
  refine ⟨fun h ↦ ?_, _, _, rfl, rfl, rfl, rfl⟩
  have hpair : UpToPair "WHERE (a.status = ?) AND (a.closed IS NULL)"
      "WHERE ((a.status = ?) AND  AND (a.closed IS NULL))" :=
    h .bareAccounts [.hasStatus, .nothing, .neverClosed] (by decide) _ _ rfl rfl
      (Query.bareAccounts.enter .fresh) _ _ rfl rfl
  exact absurd hpair.length_le (by decide)

end ScopedSelect
