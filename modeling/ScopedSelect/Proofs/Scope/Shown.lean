import ScopedSelect.Proofs.Scope.Unqualified
import ScopedSelect.Render.Tree

/-!
# Referring to what is shown

A table is defined under the name that it shows, but a reference counts every table that bears the
name as well.  The two agree unless an alias hides the name: a table that joins another occurrence
of itself can be referred to by its alias, and what kept the plain name cannot be referred to at all
(`toRef_renders`).

A selected column that no other column shares its shown name with can be used under that name: with
an alias this is the alias that SELECT writes, and without one the text of the column again
(`displayName_renders`).
-/

namespace ScopedSelect

theorem TableSymbol.answers_iff {t : TableSymbol} {reference : String} :
    t.Answers reference ↔ t.displayName = reference ∨ t.name = reference := by
  cases h : t.alias? <;> simp [Answers, displayName, h]

namespace Scope

/-- A visible table bears the name, and an alias hides it. -/
def Hides (s : Scope) (name : String) : Prop :=
  ∃ t ∈ s.tables, t.name = name ∧ t.displayName ≠ name

instance (s : Scope) (name : String) : Decidable (s.Hides name) :=
  inferInstanceAs (Decidable (∃ t ∈ s.tables, t.name = name ∧ t.displayName ≠ name))

variable {s : Scope} {name : String}

theorem displayName_eq_of_answers (h : ¬s.Hides name) {t : TableSymbol} (ht : t ∈ s.tables)
    (hanswers : t.Answers name) : t.displayName = name := by
  rcases TableSymbol.answers_iff.mp hanswers with hshows | hbears
  · exact hshows
  · exact Decidable.byContradiction fun hother ↦ h ⟨t, ht, hbears, hother⟩

/-- A name that one visible table shows is answered by this table alone if no alias hides it. -/
theorem atMostOne_answers_iff (h : ExactlyOne (·.displayName = name) s.tables) :
    AtMostOne (·.Answers name) s.tables ↔ ¬s.Hides name := by
  obtain ⟨honce, shown, hmem, hshown⟩ := h
  constructor
  · rintro hanswers ⟨hidden, hhidden, hbears, hother⟩
    have hsame : hidden = shown := hanswers.eq_of_mem hhidden hmem
      (TableSymbol.answers_iff.mpr (.inr hbears)) (TableSymbol.answers_iff.mpr (.inl hshown))
    exact hother (hsame ▸ hshown)
  · intro hfree
    refine honce.imp_of_mem fun ht ht' hdistinct hboth ↦ hdistinct ?_
    exact ⟨displayName_eq_of_answers hfree ht hboth.1, displayName_eq_of_answers hfree ht' hboth.2⟩

end Scope

namespace TableDef

variable {t : TableDef} {s : Scope}

theorem exactlyOne_displayName (hvisible : t.symbol ∈ s.tables)
    (htext : ∃ text, t.text s = .ok text) :
    ExactlyOne (·.displayName = t.displayName) s.tables :=
  ⟨exists_text_iff.mp htext, t.symbol, hvisible, rfl⟩

theorem text_toRef (h : AtMostOne (·.Answers t.displayName) s.tables) :
    t.toRef.text s = .ok t.displayName := by
  have hcheck : t.toRef.check s = .ok () := TableRef.check_eq_ok_iff.mpr h
  rw [TableRef.text, hcheck]
  rfl

theorem text_column_toRef {column : String} (hvisible : t.symbol ∈ s.tables)
    (h : AtMostOne (·.Answers t.displayName) s.tables)
    (hcolumn : AtMostOne (·.alias? = some column) s.columns) :
    (⟨column, some t.toRef⟩ : ColumnRef).text s = .ok (t.displayName ++ "." ++ column) := by
  have hcheck : t.toRef.check s = .ok () := TableRef.check_eq_ok_iff.mpr h
  rw [ColumnRef.text_of_table_of_atMostOne hcolumn, hcheck]
  exact ColumnRef.qualifiedText_displayName hvisible h

end TableDef

/-- A visible table that has a text can be referred to by the name that it shows, and so can its
columns, unless an alias hides the name at another table.  Then all of these references are refused,
for as many tables as answer to the name. -/
theorem toRef_renders (t : TableDef) (d : Domain) (hvisible : t.symbol ∈ d.scope.tables)
    (htext : ∃ text, ((Expr.tableDef t).render.outcome d).1 = .ok text) :
    (¬d.scope.Hides t.displayName →
      (Expr.tableRef t.toRef).render.outcome d = (.ok t.displayName, d) ∧
      ∀ column, AtMostOne (·.alias? = some column) d.scope.columns →
        (Expr.columnRef ⟨column, some t.toRef⟩).render.outcome d =
          (.ok (t.displayName ++ "." ++ column), d)) ∧
    (d.scope.Hides t.displayName →
      ∃ count, count = d.scope.tables.countP (·.answersTo t.displayName) ∧ 1 < count ∧
        (Expr.tableRef t.toRef).render.outcome d =
          (.error (.ambiguousReference t.displayName count), d) ∧
        ∀ column, (Expr.columnRef ⟨column, some t.toRef⟩).render.outcome d =
          (.error (.ambiguousReference t.displayName count), d)) := by
  simp only [Expr.render, Rendering.outcome_ofScope] at htext ⊢
  have hanswers := Scope.atMostOne_answers_iff (TableDef.exactlyOne_displayName hvisible htext)
  constructor
  · intro hfree
    have honce := hanswers.mpr hfree
    refine ⟨by rw [TableDef.text_toRef honce], fun column hcolumn ↦ ?_⟩
    rw [TableDef.text_column_toRef hvisible honce hcolumn]
  · intro hhides
    have hseveral : ¬AtMostOne (·.Answers t.displayName) d.scope.tables :=
      fun honce ↦ hanswers.mp honce hhides
    have hcheck := TableRef.check_eq_error (r := t.toRef) hseveral
    refine ⟨_, rfl, d.scope.one_lt_countP_answersTo hseveral, ?_, fun column ↦ ?_⟩
    · rw [TableRef.text, hcheck]
      rfl
    · rw [ColumnRef.text_of_table, hcheck]
      rfl

/-- Those who manage users, beside the users.  Both are of one table, and the managers go by an
alias. -/
def Query.managersOfUsers : Query :=
  { Query.empty with
    select := [.columnDef ⟨"name", some ⟨"m"⟩, none⟩]
    sources := [⟨"users", none⟩]
    joins := [⟨⟨"users", some "m"⟩, .plain, some (.condition (.combining (.infixed .equal) [
      .columnRef ⟨"id", some ⟨"m"⟩⟩, .columnRef ⟨"manager", some ⟨"users"⟩⟩]))⟩] }

/-- The managers can be referred to by their alias.  The users are defined as well, but what refers
to them is refused. -/
theorem managers_toRef_renders :
    let d := Query.managersOfUsers.enter .fresh
    let managers : TableDef := ⟨"users", some "m"⟩
    let users : TableDef := ⟨"users", none⟩
    (managers.symbol ∈ d.scope.tables ∧ ¬d.scope.Hides "m" ∧
      (Expr.tableRef managers.toRef).render.outcome d = (.ok "m", d) ∧
      (Expr.columnRef ⟨"id", some managers.toRef⟩).render.outcome d =
        (.ok ("m" ++ "." ++ "id"), d)) ∧
    users.symbol ∈ d.scope.tables ∧ d.scope.Hides "users" ∧
      ∃ count, 1 < count ∧
        (Expr.columnRef ⟨"manager", some users.toRef⟩).render.outcome d =
          (.error (.ambiguousReference "users" count), d) := by
  intro d managers users
  have hmanagers : managers.symbol ∈ d.scope.tables := by decide
  have husers : users.symbol ∈ d.scope.tables := by decide
  have hfree : ¬d.scope.Hides "m" := by decide
  have hhides : d.scope.Hides "users" := by decide
  obtain ⟨htable, hcolumn⟩ := (toRef_renders managers d hmanagers ⟨"users", rfl⟩).1 hfree
  obtain ⟨count, -, hcount, -, hrefused⟩ := (toRef_renders users d husers ⟨"users", rfl⟩).2 hhides
  exact ⟨⟨hmanagers, hfree, htable, hcolumn "id" (by decide)⟩, husers, hhides, count, hcount,
    hrefused "manager"⟩

/-- The users have a text where they are joined with their managers, and a reference to them has
none. -/
theorem users_toRef_refused :
    (¬∀ (t : TableDef) (d : Domain), t.symbol ∈ d.scope.tables →
      (∃ text, ((Expr.tableDef t).render.outcome d).1 = .ok text) →
        ((Expr.tableRef t.toRef).render.outcome d).1 = .ok t.displayName ∧
        ∀ column, AtMostOne (·.alias? = some column) d.scope.columns →
          ((Expr.columnRef ⟨column, some t.toRef⟩).render.outcome d).1 =
            .ok (t.displayName ++ "." ++ column)) ∧
    Query.managersOfUsers.build = .error (.render
      ("`users' reference is ambiguous: " ++
        "domain has 2 definitions with that name or alias")) := by
  refine ⟨fun h ↦ ?_, rfl⟩
  let d := Query.managersOfUsers.enter .fresh
  have hrefused : ((Expr.tableRef ⟨"users"⟩).render.outcome d).1 =
      .error (.ambiguousReference "users" 2) := rfl
  have htext := (h ⟨"users", none⟩ d (by decide) ⟨"users", rfl⟩).1
  exact absurd (htext.symm.trans hrefused) (by simp)

/-! ## Selected columns -/

namespace ColumnDef

variable {c : ColumnDef} {s : Scope} {text : String}

/-- What the definition prints before the column is what a reference prints there, if the table is
visible. -/
theorem qualifiedText_eq {table : TableRef} (hvisible : ∃ t ∈ s.tables, t.Answers table.name) :
    ColumnRef.qualifiedText ⟨c.name, none⟩ table s =
      .ok (qualifierText table s ++ "." ++ c.name) := by
  obtain ⟨found, hfound⟩ := Scope.exists_findTable?_iff.mpr hvisible
  simp only [ColumnRef.qualifiedText, qualifierText, hfound]

theorem text_name (hvisible : c.symbol ∈ s.columns) (htext : c.text s = .ok text)
    (htable : ∀ table ∈ c.table?, ∃ t ∈ s.tables, t.Answers table.name)
    (honce : AtMostOne (·.Bears c.name) s.columns) (halias : c.alias? = none) :
    (⟨c.name, none⟩ : ColumnRef).text s = .ok text := by
  have hother : c.symbol.alias? ≠ some c.name := by simp [symbol, halias]
  rw [eq_of_text htext, ColumnRef.text_of_atMostOne honce,
    ColumnRef.inherited?_of_mem honce hvisible (.inr rfl), if_neg hother]
  cases h : c.table? with
  | none => simp [symbol, h]
  | some table =>
    have hsame := qualifiedText_eq (c := c) (htable table h)
    simpa [symbol, h] using hsame

end ColumnDef

theorem Entity.outcome_render_select {e : Expr} {d d' : Domain} {text : String}
    (h : e.render.outcome d = (.ok text, d')) :
    (Entity.render .select e).outcome d = (.ok (withAlias text e.alias?), d') := by
  have hselect : Entity.render .select e =
      e.render >>= fun text ↦ pure (withAlias text e.alias?) := rfl
  rw [hselect, Rendering.outcome_bind, h]
  rfl

/-- A selected column that has a text can be used under the name that it shows, if no other visible
column goes by that name.  Without an alias it has the same text again, for which its table must be
visible if one is written.  With an alias, what stands there is what SELECT writes after AS. -/
theorem displayName_renders (c : ColumnDef) (text : String) (d : Domain)
    (hvisible : c.symbol ∈ d.scope.columns)
    (htext : ((Expr.columnDef c).render.outcome d).1 = .ok text)
    (htable : ∀ table ∈ c.table?, ∃ t ∈ d.scope.tables, t.Answers table.name)
    (honce : AtMostOne (·.Bears c.displayName) d.scope.columns) :
    (c.alias? = none →
      (Expr.columnRef ⟨c.displayName, none⟩).render.outcome d = (.ok text, d)) ∧
    ∀ label, c.alias? = some label →
      (Expr.columnRef ⟨c.displayName, none⟩).render.outcome d = (.ok label, d) ∧
      (Entity.render .select (.columnDef c)).outcome d = (.ok (text ++ " AS " ++ label), d) := by
  rw [Expr.render, Rendering.outcome_ofScope] at htext
  simp only [Expr.render, Rendering.outcome_ofScope]
  constructor
  · intro halias
    have hname : c.displayName = c.name := by simp [ColumnDef.displayName, halias]
    rw [hname] at honce ⊢
    rw [ColumnDef.text_name hvisible htext htable honce halias]
  · intro label halias
    have hname : c.displayName = label := by simp [ColumnDef.displayName, halias]
    rw [hname] at honce ⊢
    refine ⟨by rw [ColumnRef.text_of_alias honce ⟨c.symbol, hvisible, halias⟩], ?_⟩
    have hdefined : (Expr.columnDef c).render.outcome d = (.ok text, d) := Prod.ext htext rfl
    rw [Entity.outcome_render_select hdefined, Expr.alias?, halias]
    rfl

/-- The accounts with their owners, one column under its own name and one under an alias. -/
def Query.ownedAccounts : Query :=
  { Query.empty with
    select := [.columnDef ⟨"id", some ⟨"accounts"⟩, none⟩,
      .columnDef ⟨"name", some ⟨"o"⟩, some "owner"⟩]
    sources := [⟨"accounts", some "a"⟩]
    joins := [⟨⟨"owners", some "o"⟩, .plain, none⟩] }

theorem ownedAccounts_displayName_renders :
    let d := Query.ownedAccounts.enter .fresh
    let id : ColumnDef := ⟨"id", some ⟨"accounts"⟩, none⟩
    let owner : ColumnDef := ⟨"name", some ⟨"o"⟩, some "owner"⟩
    (id.symbol ∈ d.scope.columns ∧ ((Expr.columnDef id).render.outcome d).1 = .ok "a.id" ∧
      (Expr.columnRef ⟨"id", none⟩).render.outcome d = (.ok "a.id", d)) ∧
    owner.symbol ∈ d.scope.columns ∧ ((Expr.columnDef owner).render.outcome d).1 = .ok "o.name" ∧
      (Expr.columnRef ⟨"owner", none⟩).render.outcome d = (.ok "owner", d) ∧
      (Entity.render .select (.columnDef owner)).outcome d =
        (.ok ("o.name" ++ " AS " ++ "owner"), d) := by
  intro d id owner
  have hid : id.symbol ∈ d.scope.columns := by decide
  have howner : owner.symbol ∈ d.scope.columns := by decide
  have hidText : ((Expr.columnDef id).render.outcome d).1 = .ok "a.id" := rfl
  have hownerText : ((Expr.columnDef owner).render.outcome d).1 = .ok "o.name" := rfl
  exact ⟨⟨hid, hidText,
      (displayName_renders id "a.id" d hid hidText (by decide) (by decide)).1 rfl⟩,
    howner, hownerText,
    (displayName_renders owner "o.name" d howner hownerText (by decide) (by decide)).2 "owner" rfl⟩

end ScopedSelect
