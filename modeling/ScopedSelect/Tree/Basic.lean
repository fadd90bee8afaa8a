import ScopedSelect.Clause.Basic
import ScopedSelect.Condition.Basic
import ScopedSelect.Domain.Basic
import ScopedSelect.Tree.Names

/-!
# The tree of a query

Expressions, conditions and queries contain each other: a condition folds expressions, and a whole
query may stand where an expression does.  A `Query` lists the entities of each of its eight
clauses.  The types hold any tree; `Item` says which expressions a clause accepts.

Trees are equal if they are built alike from equal parts.  Functions of the caller are compared by
name and binary numbers as numbers, so trees that compare equal need not be the same.

A property of expressions and one of queries hold of every tree if each passes from the parts of a
tree to the whole (`Tree.induction`).  The parts of a condition are its operands; those of a query
are the expressions of its clauses, whatever entity they belong to.
-/

namespace ScopedSelect

inductive SqlFunction where
  | count
  | max
  | min
  | sum
  | avg
  | distinct
  deriving DecidableEq

def SqlFunction.name : SqlFunction → String
  | .count => "COUNT"
  | .max => "MAX"
  | .min => "MIN"
  | .sum => "SUM"
  | .avg => "AVG"
  | .distinct => "DISTINCT"

inductive Transform where
  | function (f : SqlFunction)
  | bind
  /-- Apply a function of the caller, which may read and write the domain. -/
  | custom (name : String) (apply : Domain → String → String × Domain)

namespace Transform

def name : Transform → String
  | .function f => f.name
  | .bind => "BIND"
  | .custom name _ => name

/-- Equality of transforms; those of the caller are compared by name. -/
def beq : Transform → Transform → Bool
  | .function f, .function g => f == g
  | .bind, .bind => true
  | .custom a _, .custom b _ => a == b
  | _, _ => false

instance : BEq Transform := ⟨beq⟩

instance : ToString Transform := ⟨fun t ↦ "Transform" ++ Text.parenthesized t.name⟩

end Transform

structure Fragment where
  text : String
  alias? : Option String
  deriving DecidableEq

structure ColumnPosition where
  number : UInt32
  alias? : Option String
  deriving DecidableEq

inductive JoinKind where
  | plain
  | inner
  | left
  | right
  | full
  | cross
  deriving DecidableEq

def JoinKind.keyword : JoinKind → String
  | .plain => "JOIN"
  | .inner => "INNER JOIN"
  | .left => "LEFT JOIN"
  | .right => "RIGHT JOIN"
  | .full => "FULL OUTER JOIN"
  | .cross => "CROSS JOIN"

inductive Direction where
  | ascending
  | descending
  deriving DecidableEq

def Direction.keyword : Direction → String
  | .ascending => "ASC"
  | .descending => "DESC"

structure Limit where
  number : UInt64
  offset : UInt64
  deriving DecidableEq

namespace Limit

def unbounded : UInt64 := 2147483647

/-- A missing number, or a number of zero, means all rows; a missing offset is zero. -/
def ofOptions (number offset : Option UInt64) : Limit where
  number := (number.filter (0 < ·)).getD unbounded
  offset := offset.getD 0

def text (l : Limit) : String :=
  toString l.number.toNat ++ " OFFSET " ++ toString l.offset.toNat

end Limit

mutual

inductive Expr where
  | tableDef (t : TableDef)
  | tableRef (t : TableRef)
  | columnDef (c : ColumnDef)
  | columnRef (c : ColumnRef)
  | position (p : ColumnPosition)
  | fragment (f : Fragment)
  /-- A value that is written into the text unless it is bound. -/
  | literal (v : Value)
  | decorated (inner : Expr) (t : Transform)
  | nothing
  | condition (c : Condition)
  /-- A query as an operand, in a scope of its own. -/
  | subquery (q : Query)

structure Condition where
  operands : List Expr
  folding : Folding

/-- A joined table and the condition after ON, if there is one. -/
structure Join where
  table : TableDef
  kind : JoinKind
  on? : Option Expr

structure Order where
  target : Expr
  direction : Direction

/-- A query: the entities of its clauses.  A filter may be absent and still take a place. -/
structure Query where
  select : List Expr
  sources : List TableDef
  joins : List Join
  filters : List (Option Expr)
  groups : List Expr
  havings : List Expr
  orders : List Order
  limits : List Limit

end

abbrev Entity : Clause → Type
  | .select | .group | .having => Expr
  | .source => TableDef
  | .join => Join
  | .filter => Option Expr
  | .order => Order
  | .limit => Limit

def Query.empty : Query := ⟨[], [], [], [], [], [], [], []⟩

instance : Inhabited Expr := ⟨.nothing⟩
instance : Inhabited Query := ⟨.empty⟩

namespace Expr

def kind : Expr → ExprKind
  | .tableDef _ => .tableDef
  | .tableRef _ => .tableRef
  | .columnDef _ => .columnDef
  | .columnRef _ => .columnRef
  | .position _ => .position
  | .fragment _ => .fragment
  | .literal _ => .literal
  | .decorated _ _ => .decorated
  | .nothing => .nothing
  | .condition _ => .condition
  | .subquery _ => .subquery

/-- The alias that the expression carries; that of a decorated one belongs to what is inside. -/
def alias? : Expr → Option String
  | .tableDef t => t.alias?
  | .columnDef c => c.alias?
  | .position p => p.alias?
  | .fragment f => f.alias?
  | .decorated inner _ => inner.alias?
  | _ => none

def setAlias (label : Option String) : Expr → Except RenderError Expr
  | .tableDef t => .ok (.tableDef { t with alias? := label })
  | .columnDef c => .ok (.columnDef { c with alias? := label })
  | .position p => .ok (.position { p with alias? := label })
  | .fragment f => .ok (.fragment { f with alias? := label })
  | .decorated inner t => (inner.setAlias label).map (.decorated · t)
  | e => .error (.invalidArgument (.noAlias e.kind))

/-- Set the alias where the expression stands: whether that was refused, and what stands there
afterwards. -/
def labelInPlace (label : Option String) : Expr → Except RenderError Unit × Expr
  | .tableDef t => (.ok (), .tableDef { t with alias? := label })
  | .columnDef c => (.ok (), .columnDef { c with alias? := label })
  | .position p => (.ok (), .position { p with alias? := label })
  | .fragment f => (.ok (), .fragment { f with alias? := label })
  | .decorated inner t => ((inner.labelInPlace label).1, .decorated (inner.labelInPlace label).2 t)
  | e => (.error (.invalidArgument (.noAlias e.kind)), e)

/-- What the expression makes visible when it is selected. -/
def symbol? : Expr → Option ColumnSymbol
  | .columnDef c => some c.symbol
  | .fragment f => some ⟨none, f.alias?, none⟩
  | .literal _ => some ⟨none, none, none⟩
  | .decorated inner _ => inner.symbol?
  | _ => none

end Expr

namespace Query

/-- The tables of FROM and, after them, the joined ones. -/
def tables (q : Query) : List TableDef :=
  q.sources ++ q.joins.map Join.table

def columnSymbols (q : Query) : List ColumnSymbol :=
  q.select.filterMap Expr.symbol?

def enter (q : Query) (d : Domain) : Domain :=
  d.nest (q.sources.map TableDef.symbol) (q.joins.map (·.table.symbol)) q.columnSymbols

def entities (q : Query) : (c : Clause) → List (Entity c)
  | .select => q.select
  | .source => q.sources
  | .join => q.joins
  | .filter => q.filters
  | .group => q.groups
  | .having => q.havings
  | .order => q.orders
  | .limit => q.limits

end Query

/-! ## Equality -/

mutual

def Expr.beq : Expr → Expr → Bool
  | .tableDef t, .tableDef u => t == u
  | .tableRef t, .tableRef u => t == u
  | .columnDef c, .columnDef d => c == d
  | .columnRef c, .columnRef d => c == d
  | .position p, .position q => p == q
  | .fragment f, .fragment g => f == g
  | .literal v, .literal w => v == w
  | .decorated e t, .decorated f u => e.beq f && t == u
  | .nothing, .nothing => true
  | .condition c, .condition d => c.beq d
  | .subquery q, .subquery r => q.beq r
  | _, _ => false

def Condition.beq : Condition → Condition → Bool
  | ⟨es, f⟩, ⟨fs, g⟩ => exprsBeq es fs && f == g

def Join.beq : Join → Join → Bool
  | ⟨t, k, on⟩, ⟨u, l, on'⟩ => t == u && k == l && filterBeq on on'

def Order.beq : Order → Order → Bool
  | ⟨e, d⟩, ⟨f, d'⟩ => e.beq f && d == d'

def Query.beq : Query → Query → Bool
  | ⟨select, sources, joins, filters, groups, havings, orders, limits⟩,
    ⟨select', sources', joins', filters', groups', havings', orders', limits'⟩ =>
    exprsBeq select select' && sources == sources' && joinsBeq joins joins'
      && filtersBeq filters filters' && exprsBeq groups groups' && exprsBeq havings havings'
      && ordersBeq orders orders' && limits == limits'

def exprsBeq : List Expr → List Expr → Bool
  | [], [] => true
  | e :: es, f :: fs => e.beq f && exprsBeq es fs
  | _, _ => false

def filterBeq : Option Expr → Option Expr → Bool
  | none, none => true
  | some e, some f => e.beq f
  | _, _ => false

def joinsBeq : List Join → List Join → Bool
  | [], [] => true
  | j :: js, k :: ks => j.beq k && joinsBeq js ks
  | _, _ => false

def filtersBeq : List (Option Expr) → List (Option Expr) → Bool
  | [], [] => true
  | e :: es, f :: fs => filterBeq e f && filtersBeq es fs
  | _, _ => false

def ordersBeq : List Order → List Order → Bool
  | [], [] => true
  | o :: os, p :: ps => o.beq p && ordersBeq os ps
  | _, _ => false

end

instance : BEq Expr := ⟨Expr.beq⟩
instance : BEq Query := ⟨Query.beq⟩

/-! ## Induction -/

def Query.parts (q : Query) : List Expr :=
  q.select ++ q.joins.filterMap Join.on? ++ q.filters.filterMap id ++ q.groups ++ q.havings
    ++ q.orders.map Order.target

namespace Tree

variable {P : Expr → Prop} {Q : Query → Prop}

/-- A query has a property that passes from its parts to the whole, if its parts have theirs. -/
private theorem query_of_clauses (query : ∀ q : Query, (∀ e ∈ q.parts, P e) → Q q) (q : Query)
    (select : ∀ e ∈ q.select, P e) (joins : ∀ j ∈ q.joins, ∀ e ∈ j.on?, P e)
    (filters : ∀ f ∈ q.filters, ∀ e ∈ f, P e) (groups : ∀ e ∈ q.groups, P e)
    (havings : ∀ e ∈ q.havings, P e) (orders : ∀ o ∈ q.orders, P o.target) : Q q := by
  refine query q fun e he ↦ ?_
  simp only [Query.parts, List.mem_append, List.mem_filterMap, List.mem_map, id_eq] at he
  rcases he with ((((he | ⟨j, hj, he⟩) | ⟨f, hf, he⟩) | he) | he) | ⟨o, ho, rfl⟩
  · exact select e he
  · exact joins j hj e he
  · exact filters f hf e he
  · exact groups e he
  · exact havings e he
  · exact orders o ho

/-- Induction over expressions and queries at once. -/
theorem induction (tableDef : ∀ t, P (.tableDef t)) (tableRef : ∀ t, P (.tableRef t))
    (columnDef : ∀ c, P (.columnDef c)) (columnRef : ∀ c, P (.columnRef c))
    (position : ∀ p, P (.position p)) (fragment : ∀ f, P (.fragment f))
    (literal : ∀ v, P (.literal v)) (decorated : ∀ e t, P e → P (.decorated e t))
    (nothing : P .nothing) (condition : ∀ c : Condition, (∀ e ∈ c.operands, P e) → P (.condition c))
    (subquery : ∀ q, Q q → P (.subquery q))
    (query : ∀ q : Query, (∀ e ∈ q.parts, P e) → Q q) : (∀ e, P e) ∧ ∀ q, Q q := by
  have all : ∀ e, P e := fun e ↦
    Expr.rec (motive_1 := P) (motive_2 := fun c ↦ ∀ e ∈ c.operands, P e)
      (motive_3 := fun j ↦ ∀ e ∈ j.on?, P e) (motive_4 := fun o ↦ P o.target) (motive_5 := Q)
      (motive_6 := fun es ↦ ∀ e ∈ es, P e) (motive_7 := fun o ↦ ∀ e ∈ o, P e)
      (motive_8 := fun js ↦ ∀ j ∈ js, ∀ e ∈ j.on?, P e)
      (motive_9 := fun fs ↦ ∀ f ∈ fs, ∀ e ∈ f, P e)
      (motive_10 := fun os ↦ ∀ o ∈ os, P o.target)
      tableDef tableRef columnDef columnRef position fragment literal
      (fun e t h ↦ decorated e t h) nothing (fun c h ↦ condition c h) (fun q h ↦ subquery q h)
      (fun _ _ h ↦ h) (fun _ _ _ h ↦ h) (fun _ _ h ↦ h)
      (fun select _ joins filters groups havings orders _ hs hj hf hg hh ho ↦
        query_of_clauses query _ hs hj hf hg hh ho)
      (by simp) (fun _ _ h hs ↦ by simpa using ⟨h, hs⟩)
      (by simp) (fun _ h ↦ by simpa using h)
      (by simp) (fun _ _ h hs ↦ by simpa using ⟨h, hs⟩)
      (by simp) (fun _ _ h hs ↦ by simpa using ⟨h, hs⟩)
      (by simp) (fun _ _ h hs ↦ by simpa using ⟨h, hs⟩) e
  exact ⟨all, fun q ↦ query q fun e _ ↦ all e⟩

end Tree
end ScopedSelect
