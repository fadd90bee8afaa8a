import ScopedSelect.Proofs.Scope.Hygiene

/-!
# Names that stand apart from what is visible

The checks and lookups of a name count and find among the visible tables and columns those that go
by the name.  Entries of which every name is taken by something else are passed over by all of them.
Two scopes that differ in such entries alone are `Alike`, at a level of their own or around it
(`Alike.scopeIn`), and no name that is not taken tells them apart.
-/

namespace ScopedSelect

/-- What a table may be called. -/
def TableSymbol.labels (t : TableSymbol) : List String :=
  t.name :: t.alias?.toList

def ColumnSymbol.labels (c : ColumnSymbol) : List String :=
  c.name?.toList ++ c.alias?.toList

/-- The names and aliases of the visible tables and columns. -/
def Scope.labels (s : Scope) : List String :=
  s.tables.flatMap TableSymbol.labels ++ s.columns.flatMap ColumnSymbol.labels

section Untaken

variable {α : Type} {labels : α → List String} {taken : List String} {xs ys : List α}
  {p : α → Bool}

/-- The members that may be called by a name which is not taken. -/
def untaken (taken : List String) (labels : α → List String) (xs : List α) : List α :=
  xs.filter fun x ↦ (labels x).any (· ∉ taken)

theorem untaken_append : untaken taken labels (xs ++ ys) =
    untaken taken labels xs ++ untaken taken labels ys :=
  List.filter_append xs ys

theorem untaken_eq_nil (h : ∀ x ∈ xs, ∀ n ∈ labels x, n ∈ taken) :
    untaken taken labels xs = [] := by
  rw [untaken, List.filter_eq_nil_iff]
  simpa using h

theorem mem_untaken_iff {x : α} :
    x ∈ untaken taken labels xs ↔ x ∈ xs ∧ ∃ n ∈ labels x, n ∉ taken := by
  simp [untaken]

/-- A search by names that are not taken passes over all other members. -/
theorem filter_eq_of_untaken_eq (h : untaken taken labels xs = untaken taken labels ys)
    (hp : ∀ x, p x = true → ∃ n ∈ labels x, n ∉ taken) : xs.filter p = ys.filter p := by
  have huntaken (zs : List α) : (untaken taken labels zs).filter p = zs.filter p := by
    rw [untaken, List.filter_filter]
    refine List.filter_congr fun x _ ↦ ?_
    cases hx : p x with
    | false => rfl
    | true => simpa using hp x hx
  rw [← huntaken xs, ← huntaken ys, h]

theorem countP_eq_of_untaken_eq (h : untaken taken labels xs = untaken taken labels ys)
    (hp : ∀ x, p x = true → ∃ n ∈ labels x, n ∉ taken) : xs.countP p = ys.countP p := by
  rw [List.countP_eq_length_filter, List.countP_eq_length_filter, filter_eq_of_untaken_eq h hp]

theorem find?_eq_of_untaken_eq (h : untaken taken labels xs = untaken taken labels ys)
    (hp : ∀ x, p x = true → ∃ n ∈ labels x, n ∉ taken) : xs.find? p = ys.find? p := by
  rw [← List.head?_filter, ← List.head?_filter, filter_eq_of_untaken_eq h hp]

end Untaken

theorem TableSymbol.mem_labels_of_answersTo {t : TableSymbol} {reference : String}
    (h : t.answersTo reference = true) : reference ∈ t.labels := by
  rcases TableSymbol.answersTo_iff.mp h with halias | rfl
  · simp [labels, halias]
  · exact List.mem_cons_self

theorem TableSymbol.displayName_mem_labels (t : TableSymbol) : t.displayName ∈ t.labels :=
  mem_labels_of_answersTo t.answersTo_displayName

theorem ColumnSymbol.mem_labels_of_bears {c : ColumnSymbol} {name : String} (h : c.Bears name) :
    name ∈ c.labels := by
  rcases h with h | h <;> simp [labels, h]

theorem ColumnSymbol.bears_of_displayName? {c : ColumnSymbol} {name : String}
    (h : c.displayName? = some name) : c.Bears name := by
  unfold displayName? at h
  rcases Option.or_eq_some_iff.mp h with halias | ⟨-, hname⟩
  · exact .inl halias
  · exact .inr hname

/-- Two scopes differ only in tables and columns all of whose names are taken, and the tables that
are written with the other columns have names that are not taken. -/
structure Scope.Alike (taken : List String) (s s' : Scope) : Prop where
  tables : untaken taken TableSymbol.labels s'.tables = untaken taken TableSymbol.labels s.tables
  columns : untaken taken ColumnSymbol.labels s'.columns =
    untaken taken ColumnSymbol.labels s.columns
  written : ∀ c ∈ untaken taken ColumnSymbol.labels s.columns, ∀ table ∈ c.table?, table ∉ taken

/-- At a level that is entered in both scopes the FROM tables are the same, too. -/
structure Scope.AlikeWithin (taken : List String) (s s' : Scope) : Prop
    extends Scope.Alike taken s s' where
  sources : s'.sources = s.sources
  untaken_sources : ∀ t ∈ s.sources, t.displayName ∉ taken

variable {taken : List String} {s s' : Scope}

namespace Scope

/-- A scope is like the empty one if all names in it are taken. -/
theorem alike_empty (s : Scope) : Alike s.labels .empty s where
  tables := untaken_eq_nil fun t ht _ hn ↦
    List.mem_append_left _ (List.mem_flatMap.mpr ⟨t, ht, hn⟩)
  columns := untaken_eq_nil fun c hc _ hn ↦
    List.mem_append_right _ (List.mem_flatMap.mpr ⟨c, hc, hn⟩)
  written _ hc := absurd hc List.not_mem_nil

theorem Alike.findTable? (h : Alike taken s s') {reference : String} (hr : reference ∉ taken) :
    s'.findTable? reference = s.findTable? reference :=
  find?_eq_of_untaken_eq h.tables fun _ ht ↦
    ⟨reference, TableSymbol.mem_labels_of_answersTo ht, hr⟩

/-- Scopes that are alike stay so when a query is entered whose own names are not taken. -/
theorem Alike.scopeIn (h : Alike taken s s') {q : Query}
    (hsources : ∀ t ∈ q.sources, t.displayName ∉ taken)
    (hwritten : ∀ c ∈ q.columnSymbols, ∀ table ∈ c.table?, table ∉ taken) :
    AlikeWithin taken (q.scopeIn s) (q.scopeIn s') where
  tables := by simp only [Query.scopeIn, nest, untaken_append, h.tables]
  columns := by simp only [Query.scopeIn, nest, untaken_append, h.columns]
  written c hc := by
    simp only [Query.scopeIn, nest, untaken_append, List.mem_append] at hc
    rcases hc with hc | hc
    · exact h.written c hc
    · exact hwritten c (mem_untaken_iff.mp hc).1
  sources := rfl
  untaken_sources := by
    simp only [Query.scopeIn, nest, List.forall_mem_map]
    exact hsources

end Scope

open Scope

theorem TableDef.text_eq_of_alike {t : TableDef} (h : Alike taken s s')
    (ht : t.displayName ∉ taken) : t.text s' = t.text s := by
  have hcount : s'.tables.countP (·.displayName == t.displayName) =
      s.tables.countP (·.displayName == t.displayName) := by
    refine countP_eq_of_untaken_eq h.tables fun x hx ↦ ⟨t.displayName, ?_, ht⟩
    exact eq_of_beq hx ▸ x.displayName_mem_labels
  rw [text, text, hcount]

theorem TableRef.check_eq_of_alike {r : TableRef} (h : Alike taken s s') (hr : r.name ∉ taken) :
    r.check s' = r.check s := by
  have hcount : s'.tables.countP (·.answersTo r.name) = s.tables.countP (·.answersTo r.name) :=
    countP_eq_of_untaken_eq h.tables fun _ hx ↦
      ⟨r.name, TableSymbol.mem_labels_of_answersTo hx, hr⟩
  rw [check, check, hcount]

theorem TableRef.text_eq_of_alike {r : TableRef} (h : Alike taken s s') (hr : r.name ∉ taken) :
    r.text s' = r.text s := by
  rw [text, text, check_eq_of_alike h hr]

theorem checkQualifier_eq_of_alike {qualifier : Option TableRef} (h : Alike taken s s')
    (hq : ∀ table ∈ qualifier, table.name ∉ taken) :
    checkQualifier qualifier s' = checkQualifier qualifier s := by
  cases qualifier with
  | none => rfl
  | some table => exact table.check_eq_of_alike h (hq table rfl)

theorem ColumnDef.text_eq_of_alike {c : ColumnDef} (h : Alike taken s s') (hname : c.name ∉ taken)
    (halias : ∀ label ∈ c.alias?, label ∉ taken)
    (htable : ∀ table ∈ c.table?, table.name ∉ taken) : c.text s' = c.text s := by
  have hdisplay : c.displayName ∉ taken := by
    cases hc : c.alias? with
    | none => simpa [displayName, hc] using hname
    | some label => simpa [displayName, hc] using halias label hc
  have hcount : s'.columns.countP c.clashesWith = s.columns.countP c.clashesWith := by
    refine countP_eq_of_untaken_eq h.columns fun x hx ↦ ?_
    rcases clashesWith_iff.mp hx with hx | ⟨-, hx⟩
    · exact ⟨_, ColumnSymbol.mem_labels_of_bears (ColumnSymbol.bears_of_displayName? hx), hdisplay⟩
    · exact ⟨_, ColumnSymbol.mem_labels_of_bears (.inr hx), hname⟩
  have hqualifier (table : TableRef) (ht : table ∈ c.table?) :
      qualifierText table s' = qualifierText table s := by
    rw [qualifierText, qualifierText, h.findTable? (htable table ht)]
  rw [text, text, checkQualifier_eq_of_alike h htable, hcount]
  cases hc : c.table? with
  | none => rfl
  | some table => simp only [hqualifier table hc]

namespace ColumnRef

variable {r : ColumnRef}

theorem filter_means_eq_of_alike (h : Alike taken s s') (hname : r.name ∉ taken) :
    s'.columns.filter r.means = s.columns.filter r.means :=
  filter_eq_of_untaken_eq h.columns fun _ hc ↦
    ⟨r.name, ColumnSymbol.mem_labels_of_bears (means_iff.mp hc), hname⟩

theorem resolve_eq_of_alike (h : AlikeWithin taken s s') (hname : r.name ∉ taken) :
    r.resolve s' = r.resolve s := by
  have hwritten : r.writtenTables s' = r.writtenTables s := by
    rw [writtenTables, writtenTables, filter_means_eq_of_alike h.toAlike hname]
  simp only [resolve, hwritten, h.sources]

/-- The table that a reference is resolved to is written with it or is a FROM table. -/
theorem untaken_of_resolve (h : AlikeWithin taken s s')
    (htable : ∀ table ∈ r.table?, table.name ∉ taken) {table : TableRef}
    (hresolve : r.resolve s = .ok (some table)) : table.name ∉ taken := by
  unfold resolve at hresolve
  split at hresolve
  · rename_i written hwritten
    obtain rfl : written = table := by simpa using hresolve
    exact htable written hwritten
  · split at hresolve
    · simp at hresolve
    · split at hresolve
      · rename_i only hsources
        obtain rfl : (⟨only.displayName⟩ : TableRef) = table := by simpa using hresolve
        exact h.untaken_sources only (by simp [hsources])
      · simp at hresolve

theorem inherited?_eq_of_alike (h : Alike taken s s') (hname : r.name ∉ taken) :
    r.inherited? s' = r.inherited? s := by
  have hfind : s'.columns.find? r.means = s.columns.find? r.means := by
    rw [← List.head?_filter, ← List.head?_filter, filter_means_eq_of_alike h hname]
  rw [inherited?, inherited?, hfind]

/-- The table that a reference takes over is written with a column of its name. -/
theorem untaken_of_inherited? (h : Alike taken s s') (hname : r.name ∉ taken) {table : TableRef}
    (hinherited : r.inherited? s = some table) : table.name ∉ taken := by
  unfold inherited? at hinherited
  split at hinherited
  · rename_i c hc
    have hmem : c ∈ untaken taken ColumnSymbol.labels s.columns :=
      mem_untaken_iff.mpr ⟨List.mem_of_find?_eq_some hc, r.name,
        ColumnSymbol.mem_labels_of_bears (means_iff.mp (List.find?_some hc)), hname⟩
    split at hinherited
    · simp at hinherited
    · obtain ⟨written, hwritten, rfl⟩ := Option.map_eq_some_iff.mp hinherited
      exact h.written c hmem written hwritten
  · simp at hinherited

theorem qualifiedText_eq_of_alike (h : Alike taken s s') {table : TableRef}
    (ht : table.name ∉ taken) : r.qualifiedText table s' = r.qualifiedText table s := by
  rw [qualifiedText, qualifiedText, h.findTable? ht]

theorem text_eq_of_alike (h : AlikeWithin taken s s') (hname : r.name ∉ taken)
    (htable : ∀ table ∈ r.table?, table.name ∉ taken) : r.text s' = r.text s := by
  have hcount (known : Bool) :
      s'.columns.countP (r.competes known) = s.columns.countP (r.competes known) := by
    refine countP_eq_of_untaken_eq h.columns fun c hc ↦ ⟨r.name, ?_, hname⟩
    refine ColumnSymbol.mem_labels_of_bears ?_
    simp only [competes, Bool.or_eq_true, beq_iff_eq, Bool.and_eq_true] at hc
    exact hc.imp id And.right
  simp only [text, resolve_eq_of_alike h hname, inherited?_eq_of_alike h.toAlike hname, hcount]
  cases hresolve : r.resolve s with
  | error e => rfl
  | ok resolved =>
    have hresolved : ∀ table ∈ resolved, table.name ∉ taken := by
      rintro table rfl
      exact untaken_of_resolve h htable hresolve
    have hqualified : ∀ table ∈ resolved.or (r.inherited? s),
        r.qualifiedText table s' = r.qualifiedText table s := by
      intro table ht
      refine qualifiedText_eq_of_alike h.toAlike ?_
      rcases Option.or_eq_some_iff.mp ht with ht | ⟨-, ht⟩
      · exact hresolved table ht
      · exact untaken_of_inherited? h.toAlike hname ht
    simp only [bind, Except.bind, checkQualifier_eq_of_alike h.toAlike hresolved]
    cases hq : resolved.or (r.inherited? s) with
    | none => rfl
    | some table => simp only [hqualified table hq]

end ColumnRef
end ScopedSelect
