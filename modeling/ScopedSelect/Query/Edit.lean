import ScopedSelect.Render.Tree
import ScopedSelect.Tree.Construction
import ScopedSelect.Tree.Basic

/-!
# Putting queries together

Each function changes one clause of a query.  What is added to a clause is an item of that clause,
so a query that is put together this way holds no expression out of place.
-/

namespace ScopedSelect

namespace Join

def ofTable (table : TableDef) (kind : JoinKind) (on? : Option (Item .filter)) : Join :=
  ⟨table, kind, on?.map Item.expr⟩

/-- The join with one more condition: both must hold if there is one already. -/
def augment (j : Join) (more : Option Expr) : Join :=
  match j.on?, more with
  | some current, some extra =>
    { j with on? := some (.condition (.combining .conjunction [current, extra])) }
  | current, extra => { j with on? := current.or extra }

def targets (j : Join) (reference : String) : Bool :=
  j.table.answersTo reference

end Join

namespace Order

def ofItem (target : Item .order) (direction : Direction) : Order :=
  ⟨target.expr, direction⟩

end Order

namespace Query

def replaceFirst {α : Type} (test : α → Bool) (f : α → α) : List α → List α
  | [] => []
  | x :: xs => if test x then f x :: xs else x :: replaceFirst test f xs

def addColumn (q : Query) (column : Item .select) : Query :=
  { q with select := Clause.push .select q.select column.expr }

/-- Put another column in the place of the first one equal to `old`. -/
def replaceColumn (q : Query) (old : Expr) (column : Item .select) : Query :=
  { q with select := replaceFirst (· == old) (fun _ ↦ column.expr) q.select }

/-- Select no column equal to one of the list, or no column at all if there is no list. -/
def removeColumns (q : Query) (columns : Option (List Expr)) : Query :=
  match columns with
  | none => { q with select := [] }
  | some columns =>
    { q with select := Clause.keep .select (q.select.filter fun e ↦ !columns.any (· == e)) }

def addSource (q : Query) (table : TableDef) : Query :=
  { q with sources := Clause.push .source q.sources table }

def addJoin (q : Query) (join : Join) : Query :=
  { q with joins := Clause.push .join q.joins join }

/-- Add a condition to the first join of a table, by alias or name; nothing changes if it is not
joined. -/
def augmentJoin (q : Query) (table : String) (condition : Option (Item .filter)) : Query :=
  { q with
    joins := replaceFirst (·.targets table) (·.augment (condition.map Item.expr)) q.joins }

def addFilter (q : Query) (condition : Option (Item .filter)) : Query :=
  { q with filters := Clause.push .filter q.filters (condition.map Item.expr) }

def addGroup (q : Query) (target : Item .group) : Query :=
  { q with groups := Clause.push .group q.groups target.expr }

def addHaving (q : Query) (condition : Item .having) : Query :=
  { q with havings := Clause.push .having q.havings condition.expr }

def addOrder (q : Query) (order : Order) : Query :=
  { q with orders := Clause.push .order q.orders order }

def setLimit (q : Query) (limit : Limit) : Query :=
  { q with limits := [limit] }

end Query
end ScopedSelect
