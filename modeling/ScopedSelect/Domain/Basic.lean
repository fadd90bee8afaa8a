import ScopedSelect.Domain.State
import ScopedSelect.Error
import ScopedSelect.Value.Conversion

/-!
# The domain of a rendering

A `Domain` is the scope that names are checked against and the state that is written on the way.  A
nested query works in a domain of its own, which inherits both; only its state comes back.

A `Scope` lists the tables and columns that names can refer to, and apart from them the tables of
the innermost FROM clause.  Entering a nested query puts its own FROM tables in front of those it
inherits and its joined tables behind them; its selected columns follow the inherited ones.
-/

namespace ScopedSelect

structure TableSymbol where
  name : String
  alias? : Option String
  deriving DecidableEq

namespace TableSymbol

def displayName (t : TableSymbol) : String :=
  t.alias?.getD t.name

def answersTo (t : TableSymbol) (reference : String) : Bool :=
  t.alias? == some reference || t.name == reference

theorem answersTo_displayName (t : TableSymbol) : t.answersTo t.displayName = true := by
  cases h : t.alias? <;> simp [answersTo, displayName, h]

end TableSymbol

/-- A visible column.  A computed column has no name, and the table is the one written before the
column's name, if any. -/
structure ColumnSymbol where
  name? : Option String
  alias? : Option String
  table? : Option String
  deriving DecidableEq

def ColumnSymbol.displayName? (c : ColumnSymbol) : Option String :=
  c.alias?.or c.name?

/-- The definitions visible to a query. -/
structure Scope where
  tables : List TableSymbol
  columns : List ColumnSymbol
  sources : List TableSymbol
  deriving DecidableEq

namespace Scope

def empty : Scope := ⟨[], [], []⟩

def findTable? (s : Scope) (reference : String) : Option TableSymbol :=
  s.tables.find? (·.answersTo reference)

def nest (s : Scope) (sources joined : List TableSymbol) (selected : List ColumnSymbol) :
    Scope where
  tables := sources ++ s.tables ++ joined
  columns := s.columns ++ selected
  sources := sources

theorem findTable?_eq_some {s : Scope} {reference : String} {t : TableSymbol}
    (h : s.findTable? reference = some t) : t ∈ s.tables ∧ t.answersTo reference = true := by
  unfold findTable? at h
  exact ⟨List.mem_of_find?_eq_some h, by simpa using List.find?_some h⟩

end Scope

/-- What a rendering reads and writes beside its text. -/
structure Domain where
  scope : Scope
  state : State

namespace Domain

def boundKey : String := "boundParams"

/-- The keys that read as empty until they are written. -/
def scopeKeys : List String := ["tables", "columns"]

def fresh : Domain := ⟨.empty, .empty⟩

def set {α : Type} [ToValue α] (d : Domain) (key : String) (v : α) : Domain :=
  { d with state := d.state.set key (.one (toValue v)) }

def add {α : Type} [ToValue α] (d : Domain) (key : String) (v : α) : Domain :=
  { d with state := d.state.add key (toValue v) }

def bind (d : Domain) (v : Value) : Domain :=
  d.add boundKey v

/-- The slot under a key, which must have been written unless it is a scope key. -/
def get (d : Domain) (key : String) : Except RenderError Slot :=
  match d.state.find? key with
  | some slot => .ok slot
  | none => if key ∈ scopeKeys then .ok (.many []) else .error (.keyNotFound key)

def has (d : Domain) (key : String) : Bool :=
  (d.state.find? key).isSome

def boundValues (d : Domain) : List Value :=
  (d.state.find? boundKey).elim [] Slot.values

def nest (d : Domain) (sources joined : List TableSymbol) (selected : List ColumnSymbol) : Domain :=
  { d with scope := d.scope.nest sources joined selected }

/-- Take over what a nested query wrote, and nothing of its scope. -/
def takeState (d nested : Domain) : Domain :=
  { d with state := d.state.setAll nested.state }

@[simp] theorem boundValues_bind (d : Domain) (v : Value) :
    (d.bind v).boundValues = d.boundValues ++ [v] := by
  simp [boundValues, bind, add, State.add, toValue]

end Domain
end ScopedSelect
