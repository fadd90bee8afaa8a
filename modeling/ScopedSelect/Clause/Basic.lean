/-!
# The clauses of a query

A query has eight clauses, written in a fixed order.  Each says by which keyword it starts, what
stands between its entities and whether it keeps more than one of them.  Every expression is of one
kind, which decides in which clauses it may stand and names it in messages.
-/

namespace ScopedSelect

/-- A clause of a query; `source` is FROM and `filter` is WHERE. -/
inductive Clause where
  | select
  | source
  | join
  | filter
  | group
  | having
  | order
  | limit
  deriving DecidableEq

namespace Clause

def all : List Clause := [.select, .source, .join, .filter, .group, .having, .order, .limit]

theorem mem_all (c : Clause) : c ∈ all := by
  cases c <;> decide

def name : Clause → String
  | .select => "Select"
  | .source => "From"
  | .join => "Join"
  | .filter => "Where"
  | .group => "Group"
  | .having => "Having"
  | .order => "Order"
  | .limit => "Limit"

/-- What stands before the first entity.  The keyword of the sources belongs to the query, and each
join carries its own. -/
def keyword : Clause → String
  | .select => "SELECT "
  | .source | .join => ""
  | .filter => "WHERE "
  | .group => "GROUP BY "
  | .having => "HAVING "
  | .order => "ORDER BY "
  | .limit => "LIMIT "

def separator : Clause → String
  | .select | .source | .group | .order => ","
  | .join => " "
  | .filter | .having => " AND "
  | .limit => ""

/-- Whether the clause keeps only its latest entity. -/
def holdsOne : Clause → Bool
  | .limit => true
  | _ => false

/-- The text of a clause from the texts of its entities.  Entities without text are left out, and a
clause of which nothing is left has no text. -/
def assemble (c : Clause) (texts : List String) : String :=
  match texts.filter (· ≠ "") with
  | [] => ""
  | shown => c.keyword ++ c.separator.intercalate shown

end Clause

inductive ExprKind where
  | tableDef
  | tableRef
  | columnDef
  | columnRef
  | position
  | fragment
  | literal
  | decorated
  | nothing
  | condition
  | subquery
  deriving DecidableEq

def ExprKind.description : ExprKind → String
  | .tableDef => "table definition"
  | .tableRef => "table reference"
  | .columnDef => "column definition"
  | .columnRef => "column reference"
  | .position => "column position"
  | .fragment => "arithmetic expression"
  | .literal => "literal"
  | .decorated => "decorator"
  | .nothing => "null placeholder"
  | .condition => "where expression"
  | .subquery => "subquery"

/-- The clauses in which an expression of a kind may stand. -/
def ExprKind.clauses : ExprKind → List Clause
  | .tableDef => [.source]
  | .tableRef => []
  | .columnDef => [.select]
  | .columnRef => [.filter, .group, .having, .order]
  | .position => [.group, .order]
  | .fragment | .literal => [.select, .filter, .having]
  | .decorated => [.select, .filter, .group, .having, .order]
  | .nothing | .condition | .subquery => [.filter]

end ScopedSelect
