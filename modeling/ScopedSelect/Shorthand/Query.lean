import ScopedSelect.Query.Edit
import ScopedSelect.Render.Tree
import ScopedSelect.Shorthand.Basic

/-!
# Queries in the short notation

A query is put together from texts in the short notation.  A step that refuses its argument leaves
no query, also if it takes several arguments of which only a later one is refused.
-/

namespace ScopedSelect

/-- A column to select: its text, its alias and what is done to it. -/
structure ColumnSpec where
  spec : String
  alias? : Option String
  transform? : Option Transform

namespace ColumnSpec

/-- The column as an item: the alias is set before the column is transformed. -/
def toItem (c : ColumnSpec) : Except Error (Item .select) := do
  let column := Shorthand.column c.spec
  let labelled ← match c.alias? with
    | some label => Shorthand.aliased column label
    | none => .ok column
  Item.ofExpr .select <| match c.transform? with
    | some t => .decorated labelled t
    | none => labelled

/-- The column as one of a table, whose text comes before a point. -/
def ofTable (table : String) (c : ColumnSpec) : ColumnSpec :=
  { c with spec := table ++ "." ++ c.spec }

end ColumnSpec

namespace Query

def selectColumn (q : Query) (column : ColumnSpec) : Except Error Query := do
  return q.addColumn (← column.toItem)

def selectColumns (q : Query) (table : String) (columns : List ColumnSpec) : Except Error Query :=
  columns.foldlM (fun q column ↦ q.selectColumn (column.ofTable table)) q

/-- Select another column in the place of the first one equal to `old`. -/
def reselectColumn (q : Query) (old : Expr) (column : ColumnSpec) : Except Error Query := do
  return q.replaceColumn old (← column.toItem)

def source (q : Query) (table : String) (label : Option String) : Query :=
  q.addSource ⟨table, label⟩

/-- Several conditions as one: nothing if there is none, and the condition itself if there is
one. -/
def conjunctionOf (conditions : List Expr) : Except Error (Option (Item .filter)) :=
  match conditions with
  | [] => .ok none
  | [condition] => (Item.ofExpr .filter condition).map some
  | conditions => (Item.ofExpr .filter (Shorthand.allOf conditions)).map some

/-- Join a table under conditions that must all hold. -/
def join (q : Query) (kind : JoinKind) (table : String) (label : Option String)
    (conditions : List Expr) : Except Error Query := do
  return q.addJoin (.ofTable ⟨table, label⟩ kind (← conjunctionOf conditions))

def joinOn (q : Query) (table : String) (conditions : List Expr) : Except Error Query := do
  return q.augmentJoin table (← conjunctionOf conditions)

def filter (q : Query) (condition : Expr) : Except Error Query := do
  return q.addFilter (some (← Item.ofExpr .filter condition))

def filterMember (q : Query) (column : String) (values : List Value) : Except Error Query :=
  q.filter (Shorthand.member column (Shorthand.tuple (values.map Shorthand.bound)))

def groupBy (q : Query) (spec : String) : Except Error Query := do
  let target ← Shorthand.target spec
  return q.addGroup (← Item.ofExpr .group target)

def groupByAll (q : Query) (specs : List String) : Except Error Query :=
  specs.foldlM groupBy q

def orderBy (q : Query) (spec : String) (direction : Direction) : Except Error Query := do
  let target ← Shorthand.target spec
  return q.addOrder (.ofItem (← Item.ofExpr .order target) direction)

def orderByAll (q : Query) (specs : List (String × Direction)) : Except Error Query :=
  specs.foldlM (fun q (spec, direction) ↦ q.orderBy spec direction) q

def limitTo (q : Query) (number offset : Option UInt64) : Query :=
  q.setLimit (.ofOptions number offset)

end Query
end ScopedSelect
