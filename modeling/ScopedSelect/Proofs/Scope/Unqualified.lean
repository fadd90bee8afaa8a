import ScopedSelect.Proofs.Scope.Names
import ScopedSelect.Proofs.Tree.Traversal
import ScopedSelect.Render.Tree

/-!
# References without a table

A reference without a table takes over the table of the one column that it names, and does so
without asking how many tables answer to it.  It therefore agrees with the reference that has this
table written before it exactly if no second table answers (`inherited_eq_written_iff`); otherwise
the written table is refused as ambiguous and the inherited one is the first that answers.

A column named by its alias stands on its own.  The only FROM table decides before that is looked
at, though, so that an alias is taken for a column of this table as soon as other columns of the
same name were written with other tables (`text_of_alias_iff`).
-/

namespace ScopedSelect

namespace Scope

variable {s : Scope} {name table : String}

/-- One visible column goes by the name, which is its bare name and not its alias, and it was
written with the table. -/
structure Inherits (s : Scope) (name table : String) : Prop where
  once : AtMostOne (·.Bears name) s.columns
  column : ∃ c ∈ s.columns, c.name? = some name ∧ c.alias? ≠ some name ∧ c.table? = some table

theorem oneTable_of_atMostOne (h : AtMostOne (·.Bears name) s.columns) : s.OneTable name := by
  intro c hc c' hc' hbears hbears' t ht t' ht'
  obtain rfl : c = c' := h.eq_of_mem hc hc' hbears hbears'
  exact Option.some.inj (ht.symm.trans ht')

theorem Inherits.alias_ne (h : s.Inherits name table) : ∀ c ∈ s.columns, c.alias? ≠ some name := by
  intro c hc halias
  obtain ⟨c', hc', hname, hother, -⟩ := h.column
  have hsame : c = c' := h.once.eq_of_mem hc hc' (.inl halias) (.inr hname)
  exact hother (hsame ▸ halias)

theorem one_lt_countP_answersTo (s : Scope) (h : ¬AtMostOne (·.Answers table) s.tables) :
    1 < s.tables.countP (·.answersTo table) := by
  refine Nat.lt_of_not_le fun hcount ↦ h ?_
  exact (AtMostOne.congr fun _ ↦ TableSymbol.answersTo_iff).mp (countP_le_one_iff.mp hcount)

/-- The only FROM table decides what a name means: the columns that go by it were written with
several tables, and no second table answers to what the FROM table is shown as. -/
structure SourceDecides (s : Scope) (name : String) (only : TableSymbol) : Prop where
  severalTables : ¬s.OneTable name
  sources : s.sources = [only]
  answers : AtMostOne (·.Answers only.displayName) s.tables

end Scope

theorem TableRef.check_eq_error {r : TableRef} {s : Scope}
    (h : ¬AtMostOne (·.Answers r.name) s.tables) :
    r.check s = .error (.ambiguousReference r.name (s.tables.countP (·.answersTo r.name))) :=
  atMostOne_of_lt (s.one_lt_countP_answersTo h)

namespace ColumnRef

variable {s : Scope} {name table : String}

/-! ## The table of the column -/

/-- If one visible column at most goes by the name, no other check is made before its table is taken
over. -/
theorem text_of_atMostOne (honce : AtMostOne (·.Bears name) s.columns) :
    (⟨name, none⟩ : ColumnRef).text s =
      match inherited? ⟨name, none⟩ s with
      | some table => qualifiedText ⟨name, none⟩ table s
      | none => .ok name := by
  have hunique : atMostOne (s.columns.countP (competes ⟨name, none⟩ false))
      (.ambiguousReference name) = .ok () := by
    rw [atMostOne_countP_eq_ok_iff, AtMostOne.congr fun _ ↦ competes_unqualified_iff]
    exact honce
  rw [text_of_oneTable (Scope.oneTable_of_atMostOne honce), hunique]
  rfl

theorem text_of_inherits (h : s.Inherits name table) :
    (⟨name, none⟩ : ColumnRef).text s = qualifiedText ⟨name, none⟩ ⟨table⟩ s := by
  obtain ⟨c, hc, hname, halias, htable⟩ := h.column
  rw [text_of_atMostOne h.once, inherited?_of_mem h.once hc (.inr hname), if_neg halias, htable]
  rfl

theorem text_of_table_of_alias_ne (h : ∀ c ∈ s.columns, c.alias? ≠ some name) :
    (⟨name, some ⟨table⟩⟩ : ColumnRef).text s = (do
      TableRef.check ⟨table⟩ s
      qualifiedText ⟨name, none⟩ ⟨table⟩ s) :=
  text_of_table_of_atMostOne (atMostOne_of_forall_not h)

/-! ## The alias of a column -/

/-- The one visible column that goes by a name has it as its alias: the alias stands alone. -/
theorem text_of_alias (honce : AtMostOne (·.Bears name) s.columns)
    (halias : ∃ c ∈ s.columns, c.alias? = some name) :
    (⟨name, none⟩ : ColumnRef).text s = .ok name := by
  obtain ⟨c, hc, halias⟩ := halias
  rw [text_of_atMostOne honce, inherited?_of_mem honce hc (.inl halias), if_pos halias]

/-- Several tables may be meant and FROM does not decide: how many they are is part of the error. -/
theorem text_of_sources_ne (hseveral : ¬s.OneTable name) (hsources : ∀ only, s.sources ≠ [only]) :
    1 < (writtenTables ⟨name, none⟩ s).length ∧
      (⟨name, none⟩ : ColumnRef).text s =
        .error (.ambiguousReference name (writtenTables ⟨name, none⟩ s).length) := by
  have hlength : ¬(writtenTables ⟨name, none⟩ s).length ≤ 1 :=
    fun h ↦ hseveral (length_writtenTables_le_one_iff.mp h)
  refine ⟨by omega, ?_⟩
  simp only [text, resolve, if_neg hlength]
  simp [bind, Except.bind]

/-- If FROM is not asked, an alias stands alone, or it competes with other columns. -/
theorem text_of_alias_of_oneTable (halias : ∃ c ∈ s.columns, c.alias? = some name)
    (hone : s.OneTable name) :
    (⟨name, none⟩ : ColumnRef).text s = .ok name ∨
      ∃ count, 1 < count ∧
        (⟨name, none⟩ : ColumnRef).text s = .error (.ambiguousReference name count) := by
  by_cases hcount : 1 < s.columns.countP (competes ⟨name, none⟩ false)
  · refine .inr ⟨_, hcount, ?_⟩
    rw [text_of_oneTable hone, atMostOne_of_lt hcount]
    rfl
  · have honce : AtMostOne (·.Bears name) s.columns :=
      (AtMostOne.congr fun _ ↦ competes_unqualified_iff).mp
        (countP_le_one_iff.mp (Nat.le_of_not_lt hcount))
    exact .inl (text_of_alias honce halias)

/-- The only FROM table stands before the name, or several tables answer to what it is shown as. -/
theorem text_of_alias_of_source {only : TableSymbol}
    (honce : AtMostOne (·.alias? = some name) s.columns) (hseveral : ¬s.OneTable name)
    (hsources : s.sources = [only]) :
    (⟨name, none⟩ : ColumnRef).text s = (do
      TableRef.check ⟨only.displayName⟩ s
      qualifiedText ⟨name, none⟩ ⟨only.displayName⟩ s) := by
  rw [text_of_source hseveral hsources, text_of_table_of_atMostOne honce]

theorem text_of_sourceDecides {only : TableSymbol}
    (honce : AtMostOne (·.alias? = some name) s.columns) (h : s.SourceDecides name only) :
    (⟨name, none⟩ : ColumnRef).text s = qualifiedText ⟨name, none⟩ ⟨only.displayName⟩ s := by
  have hcheck : TableRef.check ⟨only.displayName⟩ s = .ok () :=
    TableRef.check_eq_ok_iff.mpr h.answers
  rw [text_of_alias_of_source honce h.severalTables h.sources, hcheck]
  rfl

theorem qualifiedText_of_sourceDecides {r : ColumnRef} {only : TableSymbol}
    (honly : only ∈ s.tables) (h : s.SourceDecides name only) :
    r.qualifiedText ⟨only.displayName⟩ s = .ok (only.displayName ++ "." ++ r.name) :=
  qualifiedText_displayName honly h.answers

/-- What stands after a table is neither the bare name nor ambiguous. -/
theorem qualifiedText_ne (r : ColumnRef) (table : TableRef) (s : Scope) :
    r.qualifiedText table s ≠ .ok r.name ∧
      ∀ label count, r.qualifiedText table s ≠ .error (.ambiguousReference label count) := by
  rw [qualifiedText]
  cases s.findTable? table.name with
  | none => simp
  | some found =>
    have hlonger : found.displayName ++ "." ++ r.name ≠ r.name := by
      intro heq
      have hlength := congrArg String.length heq
      simp at hlength
    simp [hlonger]

/-- An alias stands alone, or it is ambiguous, if the FROM tables do not decide.  Three things can
go wrong: other columns compete for it, there is no single FROM table, or that table is not the only
one of its name. -/
theorem text_of_alias_of_undecided (h : ExactlyOne (·.alias? = some name) s.columns)
    (hundecided : ¬∃ only, s.SourceDecides name only) :
    (⟨name, none⟩ : ColumnRef).text s = .ok name ∨
      ∃ label count, 1 < count ∧
        (⟨name, none⟩ : ColumnRef).text s = .error (.ambiguousReference label count) := by
  obtain ⟨honce, halias⟩ := h
  by_cases hone : s.OneTable name
  · rcases text_of_alias_of_oneTable halias hone with hbare | ⟨count, hcount, hfails⟩
    · exact .inl hbare
    · exact .inr ⟨name, count, hcount, hfails⟩
  right
  by_cases hsources : ∃ only, s.sources = [only]
  · obtain ⟨only, honly⟩ := hsources
    have hseveral : ¬AtMostOne (·.Answers only.displayName) s.tables :=
      fun hanswers ↦ hundecided ⟨only, hone, honly, hanswers⟩
    have hcheck := TableRef.check_eq_error (r := ⟨only.displayName⟩) hseveral
    refine ⟨only.displayName, _, s.one_lt_countP_answersTo hseveral, ?_⟩
    rw [text_of_alias_of_source honce hone honly, hcheck]
    rfl
  · obtain ⟨hcount, hfails⟩ := text_of_sources_ne hone fun only honly ↦ hsources ⟨only, honly⟩
    exact ⟨name, _, hcount, hfails⟩

end ColumnRef

section Results

variable (name : String) (d : Domain)

/-- A reference that takes over the table of a column has the result of the one that has this table
written before it exactly if no second table answers.  If one does, the written table is refused,
and the inherited one is the first table that answers. -/
theorem inherited_eq_written_iff (table : String) (h : d.scope.Inherits name table) :
    ((Expr.columnRef ⟨name, none⟩).render.outcome d =
        (Expr.columnRef ⟨name, some ⟨table⟩⟩).render.outcome d ↔
      AtMostOne (·.Answers table) d.scope.tables) ∧
    (¬AtMostOne (·.Answers table) d.scope.tables →
      ∃ found count, d.scope.findTable? table = some found ∧ 1 < count ∧
        (Expr.columnRef ⟨name, none⟩).render.outcome d =
          (.ok (found.displayName ++ "." ++ name), d) ∧
        (Expr.columnRef ⟨name, some ⟨table⟩⟩).render.outcome d =
          (.error (.ambiguousReference table count), d)) := by
  simp only [Expr.render, Rendering.outcome_ofScope, ColumnRef.text_of_inherits h,
    ColumnRef.text_of_table_of_alias_ne h.alias_ne]
  have hdiffer (hseveral : ¬AtMostOne (·.Answers table) d.scope.tables) :
      ∃ found count, d.scope.findTable? table = some found ∧ 1 < count ∧
        ColumnRef.qualifiedText ⟨name, none⟩ ⟨table⟩ d.scope =
          .ok (found.displayName ++ "." ++ name) ∧
        TableRef.check ⟨table⟩ d.scope = .error (.ambiguousReference table count) := by
    have hcount : 1 < d.scope.tables.countP (·.answersTo table) :=
      d.scope.one_lt_countP_answersTo hseveral
    obtain ⟨t, ht, hanswers⟩ := List.countP_pos_iff.mp (Nat.zero_lt_of_lt hcount)
    obtain ⟨found, hfound⟩ := Scope.exists_findTable?_iff.mpr
      ⟨t, ht, TableSymbol.answersTo_iff.mp hanswers⟩
    exact ⟨found, _, hfound, hcount, by simp [ColumnRef.qualifiedText, hfound],
      atMostOne_of_lt hcount⟩
  refine ⟨⟨fun heq ↦ ?_, fun hone ↦ ?_⟩, fun hseveral ↦ ?_⟩
  · refine Decidable.byContradiction fun hseveral ↦ ?_
    obtain ⟨found, count, -, -, htext, hcheck⟩ := hdiffer hseveral
    simp [htext, hcheck, bind, Except.bind] at heq
  · rw [TableRef.check_eq_ok_iff.mpr hone]
    rfl
  · obtain ⟨found, count, hfound, hcount, htext, hcheck⟩ := hdiffer hseveral
    exact ⟨found, count, hfound, hcount, by rw [htext], by rw [hcheck]; rfl⟩

/-- The users that are managed by a user with some number.  Their table goes by another alias in
here, and the number is that of a user in the query around. -/
def Query.managedUsers (number : ColumnRef) : Query :=
  { Query.empty with
    select := [.columnDef ⟨"name", some ⟨"u2"⟩, none⟩]
    sources := [⟨"users", some "u2"⟩]
    filters := [some (.condition (.combining (.infixed .equal) [
      .columnRef ⟨"manager", some ⟨"u2"⟩⟩, .columnRef number]))] }

def Query.managers (number : ColumnRef) : Query :=
  { Query.empty with
    select := [.columnDef ⟨"id", some ⟨"users"⟩, none⟩]
    sources := [⟨"users", none⟩]
    filters := [some (.subquery (.managedUsers number))] }

/-- Among the accounts, the number means the same with and without its table.  Among the managed
users it does not, where two tables answer. -/
theorem accountId_inherited :
    let d := (Query.accounts .null .null).enter .fresh
    let level := (Query.managedUsers ⟨"id", none⟩).enter
      ((Query.managers ⟨"id", none⟩).enter .fresh)
    d.scope.Inherits "id" "a" ∧
      (Expr.columnRef ⟨"id", none⟩).render.outcome d =
        (Expr.columnRef ⟨"id", some ⟨"a"⟩⟩).render.outcome d ∧
      level.scope.Inherits "id" "users" ∧
      ∃ found count, level.scope.findTable? "users" = some found ∧ 1 < count ∧
        (Expr.columnRef ⟨"id", none⟩).render.outcome level =
          (.ok (found.displayName ++ "." ++ "id"), level) ∧
        (Expr.columnRef ⟨"id", some ⟨"users"⟩⟩).render.outcome level =
          (.error (.ambiguousReference "users" count), level) := by
  intro d level
  have hinherits : d.scope.Inherits "id" "a" := ⟨by decide, by decide⟩
  have hnested : level.scope.Inherits "id" "users" := ⟨by decide, by decide⟩
  have hseveral : ¬AtMostOne (·.Answers "users") level.scope.tables := by decide
  exact ⟨hinherits, (inherited_eq_written_iff "id" d "a" hinherits).1.mpr (by decide), hnested,
    (inherited_eq_written_iff "id" level "users" hnested).2 hseveral⟩

/-- Among the managed users, the number of a manager is taken for that of the managed user.  With
its table it is refused. -/
theorem managerId_captured :
    (¬∀ (name table : String) (d : Domain), d.scope.Inherits name table →
      (Expr.columnRef ⟨name, none⟩).render.outcome d =
        (Expr.columnRef ⟨name, some ⟨table⟩⟩).render.outcome d) ∧
    (Query.managers ⟨"id", none⟩).build = .ok
      ("SELECT users.id FROM users WHERE " ++
        "(SELECT u2.name FROM users AS u2 WHERE (u2.manager = u2.id))", []) ∧
    (Query.managers ⟨"id", some ⟨"users"⟩⟩).build = .error (.render
      ("`users' reference is ambiguous: " ++
        "domain has 2 definitions with that name or alias")) := by
  refine ⟨fun h ↦ ?_, rfl, rfl⟩
  let level := (Query.managedUsers ⟨"id", none⟩).enter ((Query.managers ⟨"id", none⟩).enter .fresh)
  have hinherits : level.scope.Inherits "id" "users" := ⟨by decide, by decide⟩
  have htext : ((Expr.columnRef ⟨"id", none⟩).render.outcome level).1 = .ok "u2.id" := rfl
  have hrefused : ((Expr.columnRef ⟨"id", some ⟨"users"⟩⟩).render.outcome level).1 =
      .error (.ambiguousReference "users" 2) := rfl
  rw [h "id" "users" level hinherits, hrefused] at htext
  exact absurd htext (by simp)

/-- A name that one visible column has as its alias stands alone, or it is ambiguous, unless the
only FROM table decides what it means: then that table stands before it. -/
theorem text_of_alias_iff (h : ExactlyOne (·.alias? = some name) d.scope.columns) :
    (((Expr.columnRef ⟨name, none⟩).render.outcome d = (.ok name, d) ∨
        ∃ label count, 1 < count ∧
          (Expr.columnRef ⟨name, none⟩).render.outcome d =
            (.error (.ambiguousReference label count), d)) ↔
      ¬∃ only, d.scope.SourceDecides name only) ∧
    ∀ only ∈ d.scope.tables, d.scope.SourceDecides name only →
      (Expr.columnRef ⟨name, none⟩).render.outcome d =
        (.ok (only.displayName ++ "." ++ name), d) := by
  simp only [Expr.render, Rendering.outcome_ofScope, Prod.mk.injEq, and_true]
  refine ⟨⟨?_, ColumnRef.text_of_alias_of_undecided h⟩, fun only honly hdecides ↦ ?_⟩
  · rintro hresult ⟨only, hdecides⟩
    rw [ColumnRef.text_of_sourceDecides h.1 hdecides] at hresult
    obtain ⟨hbare, hunambiguous⟩ :=
      ColumnRef.qualifiedText_ne ⟨name, none⟩ ⟨only.displayName⟩ d.scope
    rcases hresult with htext | ⟨label, count, -, hfails⟩
    · exact hbare htext
    · exact hunambiguous label count hfails
  · rw [ColumnRef.text_of_sourceDecides h.1 hdecides,
      ColumnRef.qualifiedText_of_sourceDecides honly hdecides]

/-- Accounts with their orders, sorted by the alias of one column, which is the name of another. -/
def Query.datedAccounts : Query :=
  { Query.empty with
    select := [.columnDef ⟨"opened", some ⟨"a"⟩, some "created"⟩,
      .columnDef ⟨"created", some ⟨"o"⟩, some "ordered"⟩]
    sources := [⟨"accounts", some "a"⟩]
    joins := [⟨⟨"orders", some "o"⟩, .plain, none⟩]
    orders := [⟨.columnRef ⟨"created", none⟩, .ascending⟩] }

/-- The alias of the orders stands alone; before that of the accounts stands their table. -/
theorem orderedAlias_alone :
    let d := Query.datedAccounts.enter .fresh
    ExactlyOne (·.alias? = some "ordered") d.scope.columns ∧
      ((Expr.columnRef ⟨"ordered", none⟩).render.outcome d = (.ok "ordered", d) ∨
        ∃ label count, 1 < count ∧ (Expr.columnRef ⟨"ordered", none⟩).render.outcome d =
          (.error (.ambiguousReference label count), d)) ∧
      ExactlyOne (·.alias? = some "created") d.scope.columns ∧
      (Expr.columnRef ⟨"created", none⟩).render.outcome d = (.ok ("a" ++ "." ++ "created"), d) := by
  intro d
  have hordered : ExactlyOne (·.alias? = some "ordered") d.scope.columns := by decide
  have hcreated : ExactlyOne (·.alias? = some "created") d.scope.columns := by decide
  have hone : d.scope.OneTable "ordered" := Scope.oneTable_of_atMostOne (by decide)
  have hundecided : ¬∃ only, d.scope.SourceDecides "ordered" only :=
    fun ⟨_, hdecides⟩ ↦ hdecides.severalTables hone
  have hseveral : ¬d.scope.OneTable "created" := by
    intro h
    have heq : "a" = "o" := h ⟨some "opened", some "created", some "a"⟩ (by decide)
      ⟨some "created", some "ordered", some "o"⟩ (by decide) (by decide) (by decide) "a" rfl "o" rfl
    exact absurd heq (by decide)
  have hdecides : d.scope.SourceDecides "created" ⟨"accounts", some "a"⟩ :=
    ⟨hseveral, rfl, by decide⟩
  exact ⟨hordered, (text_of_alias_iff "ordered" d hordered).1.mpr hundecided, hcreated,
    (text_of_alias_iff "created" d hcreated).2 _ (by decide) hdecides⟩

/-- Sorting by the alias sorts by a column of the FROM table, which was never selected. -/
theorem createdAlias_rewritten :
    (¬∀ (name : String) (d : Domain), ExactlyOne (·.alias? = some name) d.scope.columns →
      ((Expr.columnRef ⟨name, none⟩).render.outcome d).1 = .ok name ∨
        ∃ label count, ((Expr.columnRef ⟨name, none⟩).render.outcome d).1 =
          .error (.ambiguousReference label count)) ∧
    Query.datedAccounts.build = .ok
      ("SELECT a.opened AS created,o.created AS ordered FROM accounts AS a JOIN orders AS o " ++
        "ORDER BY a.created ASC", []) := by
  refine ⟨fun h ↦ ?_, rfl⟩
  let d := Query.datedAccounts.enter .fresh
  have htext : ((Expr.columnRef ⟨"created", none⟩).render.outcome d).1 = .ok "a.created" := rfl
  rcases h "created" d (by decide) with hbare | ⟨label, count, hfails⟩
  · rw [htext] at hbare
    exact absurd hbare (by simp)
  · rw [htext] at hfails
    exact absurd hfails (by simp)

end Results
end ScopedSelect
