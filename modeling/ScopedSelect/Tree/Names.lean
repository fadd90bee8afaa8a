import ScopedSelect.Domain.Basic
import ScopedSelect.Error

/-!
# Defining and referring to tables and columns

A FROM or JOIN clause defines a table under its display name, which no other visible table may
show.  A reference names a table by alias or by name, and no two visible tables may answer to it; it
may be answered by none.

A selected column is defined under its display name.  A reference without a table looks for the
selected columns of its name: if they were written with several tables, the only FROM table is
meant, and otherwise the reference takes over the table of the column it names.  An alias stands on
its own and takes over no table.
-/

namespace ScopedSelect

/-- Fail if something that must be unique is there several times. -/
def atMostOne (count : Nat) (failure : Nat → RenderError) : Except RenderError Unit :=
  if 1 < count then .error (failure count) else .ok ()

theorem atMostOne_eq_ok_iff {count : Nat} {failure : Nat → RenderError} :
    atMostOne count failure = .ok () ↔ count ≤ 1 := by
  unfold atMostOne
  split <;> simp <;> omega

structure TableRef where
  name : String
  deriving DecidableEq

namespace TableRef

/-- At most one visible table answers to the reference. -/
def check (r : TableRef) (s : Scope) : Except RenderError Unit :=
  atMostOne (s.tables.countP (·.answersTo r.name)) (.ambiguousReference r.name)

def text (r : TableRef) (s : Scope) : Except RenderError String := do
  r.check s
  return r.name

/-- A reference that has a text stands there by its name. -/
theorem eq_name_of_text {r : TableRef} {s : Scope} {text : String} (h : r.text s = .ok text) :
    text = r.name := by
  simp only [TableRef.text, bind, Except.bind, pure, Except.pure] at h
  split at h
  · simp at h
  · exact (Except.ok.inj h).symm

end TableRef

/-- A table that FROM or JOIN makes visible. -/
structure TableDef where
  name : String
  alias? : Option String
  deriving DecidableEq

namespace TableDef

def displayName (t : TableDef) : String :=
  t.alias?.getD t.name

/-- The reference by which other clauses use the table. -/
def toRef (t : TableDef) : TableRef := ⟨t.displayName⟩

def symbol (t : TableDef) : TableSymbol := ⟨t.name, t.alias?⟩

def answersTo (t : TableDef) (reference : String) : Bool :=
  t.symbol.answersTo reference

/-- The definition as it stands in the text, if no other visible table shows its name. -/
def text (t : TableDef) (s : Scope) : Except RenderError String := do
  atMostOne (s.tables.countP (·.displayName == t.displayName))
    (.ambiguousDefinition t.displayName)
  return t.name

/-- A definition that has a text stands there by its name. -/
theorem eq_name_of_text {t : TableDef} {s : Scope} {text : String} (h : t.text s = .ok text) :
    text = t.name := by
  simp only [TableDef.text, bind, Except.bind, pure, Except.pure] at h
  split at h
  · simp at h
  · exact (Except.ok.inj h).symm

end TableDef

def checkQualifier (qualifier : Option TableRef) (s : Scope) : Except RenderError Unit :=
  match qualifier with
  | some table => table.check s
  | none => .ok ()

/-- A column that SELECT makes visible. -/
structure ColumnDef where
  name : String
  table? : Option TableRef
  alias? : Option String
  deriving DecidableEq

namespace ColumnDef

def displayName (c : ColumnDef) : String :=
  c.alias?.getD c.name

def symbol (c : ColumnDef) : ColumnSymbol :=
  ⟨some c.name, c.alias?, c.table?.map TableRef.name⟩

/-- Whether a visible column shows the name of this one, or bears the bare name that this one is
written by. -/
def clashesWith (c : ColumnDef) (x : ColumnSymbol) : Bool :=
  x.displayName? == some c.displayName || (c.table?.isNone && x.name? == some c.name)

/-- What stands before the column for the table written with it: the name that the table shows, and
what was written if there is no such table. -/
def qualifierText (table : TableRef) (s : Scope) : String :=
  match s.findTable? table.name with
  | some found => found.displayName
  | none => table.name

/-- The definition as it stands in the text, if no other visible column clashes with it. -/
def text (c : ColumnDef) (s : Scope) : Except RenderError String := do
  checkQualifier c.table? s
  atMostOne (s.columns.countP c.clashesWith) (.ambiguousDefinition c.displayName)
  return match c.table? with
    | some table => qualifierText table s ++ "." ++ c.name
    | none => c.name

/-- A definition that has a text stands there by its name, after its table if one is written. -/
theorem eq_of_text {c : ColumnDef} {s : Scope} {text : String} (h : c.text s = .ok text) :
    text = match c.table? with
      | some table => qualifierText table s ++ "." ++ c.name
      | none => c.name := by
  simp only [ColumnDef.text, bind, Except.bind, pure, Except.pure] at h
  split at h
  · simp at h
  · split at h
    · simp at h
    · exact (Except.ok.inj h).symm

end ColumnDef

/-- A use of a column, by alias or name, with or without its table. -/
structure ColumnRef where
  name : String
  table? : Option TableRef
  deriving DecidableEq

namespace ColumnRef

def means (r : ColumnRef) (c : ColumnSymbol) : Bool :=
  c.alias? == some r.name || c.name? == some r.name

/-- The different tables written with the visible columns that the reference may mean. -/
def writtenTables (r : ColumnRef) (s : Scope) : List String :=
  ((s.columns.filter r.means).filterMap ColumnSymbol.table?).eraseDups

/-- The table written with the reference, or the only FROM table if the columns that the reference
may mean were written with several. -/
def resolve (r : ColumnRef) (s : Scope) : Except RenderError (Option TableRef) :=
  match r.table? with
  | some table => .ok (some table)
  | none =>
    if (r.writtenTables s).length ≤ 1 then .ok none
    else
      match s.sources with
      | [only] => .ok (some ⟨only.displayName⟩)
      | _ => .error (.ambiguousReference r.name (r.writtenTables s).length)

/-- Whether a visible column competes for the name: by alias, and by name if no table is known. -/
def competes (r : ColumnRef) (qualified : Bool) (c : ColumnSymbol) : Bool :=
  c.alias? == some r.name || (!qualified && c.name? == some r.name)

/-- The table of the first visible column that the reference may mean, unless that is meant by its
alias. -/
def inherited? (r : ColumnRef) (s : Scope) : Option TableRef :=
  match s.columns.find? r.means with
  | some c => if c.alias? = some r.name then none else c.table?.map TableRef.mk
  | none => none

/-- The column after the name that its table shows; the table must be visible. -/
def qualifiedText (r : ColumnRef) (table : TableRef) (s : Scope) : Except RenderError String :=
  match s.findTable? table.name with
  | some found => .ok (found.displayName ++ "." ++ r.name)
  | none => .error (.unresolvedTable r.name table.name)

def text (r : ColumnRef) (s : Scope) : Except RenderError String := do
  let resolved ← r.resolve s
  checkQualifier resolved s
  atMostOne (s.columns.countP (r.competes resolved.isSome)) (.ambiguousReference r.name)
  match resolved.or (r.inherited? s) with
  | some table => r.qualifiedText table s
  | none => return r.name

/-- A reference that has a text stands there by its name, alone or after a visible table. -/
theorem eq_of_text {r : ColumnRef} {s : Scope} {text : String} (h : r.text s = .ok text) :
    text = r.name ∨ ∃ t ∈ s.tables, text = t.displayName ++ "." ++ r.name := by
  simp only [ColumnRef.text, bind, Except.bind, pure, Except.pure] at h
  split at h
  · simp at h
  split at h
  · simp at h
  split at h
  · simp at h
  split at h
  · rename_i table _
    unfold qualifiedText at h
    split at h
    · rename_i found hfound
      exact .inr ⟨found, (Scope.findTable?_eq_some hfound).1, (Except.ok.inj h).symm⟩
    · simp at h
  · exact .inl (Except.ok.inj h).symm

end ColumnRef
end ScopedSelect
