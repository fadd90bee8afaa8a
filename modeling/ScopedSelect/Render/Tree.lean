import ScopedSelect.Domain.Basic
import ScopedSelect.Tree.Basic
import ScopedSelect.Value.Basic

/-!
# Rendering a tree

A rendering reads and writes a domain and ends with a text or with the first check that failed.
What was written before the failure stays written, except inside a nested query: `nested` hands the
state of a query to the domain around it if the query has a text, and drops it otherwise.

Every expression renders to a text in a domain.  Definitions and references are checked against what
is visible; fragments, literals and positions are written as they are; a bound value is collected
and leaves a placeholder.  A query renders its clauses in their fixed order in a domain of its own.

An entity has a text of its own and a text as part of its clause.  They differ for a join, which
brings its keyword only in the clause, and for a limit, which has no text outside it.  A query
renders in the domain of its caller, where it leaves the values it bound, or in a fresh one.
-/

namespace ScopedSelect

/-- A step that reads and writes the domain and may fail. -/
abbrev Rendering (α : Type) := ExceptT RenderError (StateM Domain) α

namespace Rendering

/-- The result of a rendering in a domain, and the domain after it. -/
def outcome {α : Type} (r : Rendering α) (d : Domain) : Except RenderError α × Domain :=
  r.run.run d

def ofScope {α : Type} (f : Scope → Except RenderError α) : Rendering α :=
  ExceptT.mk fun d ↦ (f d.scope, d)

def bound (v : Value) : Rendering String :=
  ExceptT.mk fun d ↦ (.ok placeholder, d.bind v)

def transformed (apply : Domain → String → String × Domain) (text : String) : Rendering String :=
  ExceptT.mk fun d ↦ let (text, d) := apply d text; (.ok text, d)

/-- Render in a domain of its own, which is left to the one around it only with a text. -/
def nested {α : Type} (enter : Domain → Domain) (r : Rendering α) : Rendering α :=
  ExceptT.mk fun d ↦
    match r.outcome (enter d) with
    | (.ok text, inner) => (.ok text, d.takeState inner)
    | (.error e, _) => (.error e, d)

@[simp] theorem outcome_ofScope {α : Type} (f : Scope → Except RenderError α) (d : Domain) :
    (ofScope f).outcome d = (f d.scope, d) := rfl

@[simp] theorem outcome_pure {α : Type} (a : α) (d : Domain) :
    (pure a : Rendering α).outcome d = (.ok a, d) := rfl

theorem outcome_nested {α : Type} (enter : Domain → Domain) (r : Rendering α) (d : Domain) :
    (nested enter r).outcome d =
      match r.outcome (enter d) with
      | (.ok text, inner) => (.ok text, d.takeState inner)
      | (.error e, _) => (.error e, d) := rfl

/-- The second step runs in the domain that the first one leaves, and only if that succeeds. -/
theorem outcome_bind {α β : Type} (r : Rendering α) (f : α → Rendering β) (d : Domain) :
    (r >>= f).outcome d =
      match r.outcome d with
      | (.ok a, d) => (f a).outcome d
      | (.error e, d) => (.error e, d) := by
  simp only [outcome, ExceptT.run_bind, StateT.run_bind]
  generalize r.run.run d = result
  obtain ⟨(e | a), d⟩ := result <;> rfl

end Rendering

/-! ## Expressions and nested queries -/

def withAlias (text : String) (label : Option String) : String :=
  match label with
  | some label => text ++ " AS " ++ label
  | none => text

/-- The value that is bound as it is, rather than by its text. -/
def Expr.literal? : Expr → Option Value
  | .literal v => some v
  | _ => none

def TableDef.render (t : TableDef) : Rendering String := do
  return withAlias (← .ofScope t.text) t.alias?

def renderSources (sources : List TableDef) : Rendering (List String) :=
  sources.mapM TableDef.render

/-- Conditions after HAVING are accepted but have no text. -/
def havingFailure : RenderError :=
  .notImplemented "HAVING clause rendering"

/-- The conditions after HAVING: the first one fails. -/
def renderHavings : List Expr → Rendering (List String)
  | [] => pure []
  | _ :: _ => throw havingFailure

/-- A joined table with the text of its condition, which is wrapped in parentheses unless it already
is. -/
def joinText (table condition : String) : String :=
  if condition = "" then table
  else if Text.isWrapped condition then table ++ " ON " ++ condition
  else table ++ " ON " ++ Text.parenthesized condition

/-- A text after a word, unless there is none. -/
def after (word text : String) : String :=
  if text = "" then "" else word ++ text

/-- The texts that are not empty, with blanks between them. -/
def spaced (texts : List String) : String :=
  " ".intercalate (texts.filter (· ≠ ""))

mutual

def Expr.render : Expr → Rendering String
  | .tableDef t => .ofScope t.text
  | .tableRef t => .ofScope t.text
  | .columnDef c => .ofScope c.text
  | .columnRef c => .ofScope c.text
  | .position p => pure (toString p.number.toNat)
  | .fragment f => pure f.text
  | .literal v => pure v.literal
  | .decorated inner t =>
    match t with
    | .function f => do return f.name ++ Text.parenthesized (← inner.render)
    | .bind =>
      match inner.literal? with
      | some v => .bound v
      | none => do .bound (.text (← inner.render))
    | .custom _ apply => do .transformed apply (← inner.render)
  | .nothing => pure ""
  | .condition c => c.render
  | .subquery q => do return Text.parenthesized (← q.renderNested)

def Condition.render : Condition → Rendering String
  | ⟨operands, folding⟩ => do return folding.text (← renderAll operands)

/-- The text of a join, without its keyword. -/
def Join.render : Join → Rendering String
  | ⟨table, _, on⟩ => do
    let table ← table.render
    return joinText table (← renderFilter on)

def Order.render : Order → Rendering String
  | ⟨target, direction⟩ => do return (← target.render) ++ " " ++ direction.keyword

/-- The text of a query, rendered in a domain of its own. -/
def Query.renderNested : Query → Rendering String
  | ⟨select, sources, joins, filters, groups, havings, orders, limits⟩ =>
    .nested (Query.enter ⟨select, sources, joins, filters, groups, havings, orders, limits⟩) do
      let select := Clause.select.assemble (← renderSelection select)
      let sources := after "FROM " (Clause.source.assemble (← renderSources sources))
      let joins := Clause.join.assemble (← renderJoins joins)
      let filters := Clause.filter.assemble (← renderFilters filters)
      let groups := Clause.group.assemble (← renderAll groups)
      let havings := Clause.having.assemble (← renderHavings havings)
      let orders := Clause.order.assemble (← renderOrders orders)
      let limits := Clause.limit.assemble (limits.map Limit.text)
      return spaced [select, sources, joins, filters, groups, havings, orders, limits]

def renderAll : List Expr → Rendering (List String)
  | [] => pure []
  | e :: es => do
    let text ← e.render
    return text :: (← renderAll es)

def renderSelection : List Expr → Rendering (List String)
  | [] => pure []
  | e :: es => do
    let text ← e.render
    return withAlias text e.alias? :: (← renderSelection es)

def renderFilter : Option Expr → Rendering String
  | none => pure ""
  | some e => e.render

def renderFilters : List (Option Expr) → Rendering (List String)
  | [] => pure []
  | e :: es => do
    let text ← renderFilter e
    return text :: (← renderFilters es)

def renderJoins : List Join → Rendering (List String)
  | [] => pure []
  | j :: js => do
    let text ← j.render
    return (j.kind.keyword ++ " " ++ text) :: (← renderJoins js)

def renderOrders : List Order → Rendering (List String)
  | [] => pure []
  | o :: os => do
    let text ← o.render
    return text :: (← renderOrders os)

end

/-- Both operands of a condition are rendered, the first one first. -/
theorem Expr.render_pair (f : Folding) (e e' : Expr) :
    (Expr.condition ⟨[e, e'], f⟩).render = do
      let left ← e.render
      let right ← e'.render
      return f.text [left, right] := by
  simp [Expr.render, Condition.render, renderAll]

theorem renderAll_eq_mapM (es : List Expr) : renderAll es = es.mapM Expr.render := by
  induction es with
  | nil => simp [renderAll]
  | cons e es ih => simp [renderAll, ih]

/-- A condition folds the texts of its operands. -/
theorem Expr.render_condition (c : Condition) :
    (Expr.condition c).render = do return c.folding.text (← c.operands.mapM Expr.render) := by
  obtain ⟨operands, folding⟩ := c
  rw [Expr.render, Condition.render, renderAll_eq_mapM]

/-! ## Entities, clauses and whole queries -/

namespace Entity

def render : (c : Clause) → Entity c → Rendering String
  | .select, e => do return withAlias (← Expr.render e) (Expr.alias? e)
  | .source, t => TableDef.render t
  | .join, j => Join.render j
  | .filter, e => renderFilter e
  | .group, e => Expr.render e
  | .having, _ => throw havingFailure
  | .order, o => Order.render o
  | .limit, _ => pure ""

/-- The text of an entity as part of its clause. -/
def renderInClause : (c : Clause) → Entity c → Rendering String
  | .join, j => do return (Join.kind j).keyword ++ " " ++ (← Join.render j)
  | .limit, l => pure (Limit.text l)
  | c, e => render c e

end Entity

namespace Clause

def render (c : Clause) (entities : List (Entity c)) : Rendering String := do
  return c.assemble (← entities.mapM (Entity.renderInClause c))

/-- The entities after one more; it takes the place of all others if the clause holds one. -/
def push {α : Type} (c : Clause) (entities : List α) (entity : α) : List α :=
  if c.holdsOne then [entity] else entities ++ [entity]

/-- The entities as the clause keeps them: all of them, or the last one. -/
def keep {α : Type} (c : Clause) (entities : List α) : List α :=
  if c.holdsOne then entities.getLast?.toList else entities

def replaceAt {α : Type} (c : Clause) (entities : List α) (index : Nat) (entity : α) :
    Except Error (List α) :=
  if index < entities.length then .ok (entities.set index entity)
  else .error (.invalidArgument (.noEntityAt index c entities.length))

end Clause

namespace Query

def render (q : Query) (d : Domain) : Except Error String × Domain :=
  let (result, d) := q.renderNested.outcome d
  (result.mapError Error.ofRenderError, d)

/-- The text of a query with its bound values. -/
def build (q : Query) : Except Error (String × List Value) :=
  let (result, d) := q.render .fresh
  result.map (·, d.boundValues)

def toSql (q : Query) : Except Error String :=
  q.build.map Prod.fst

def boundValues (q : Query) : Except Error (List Value) :=
  q.build.map Prod.snd

end Query
end ScopedSelect
