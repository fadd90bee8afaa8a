import ScopedSelect.Render.Tree

/-!
# A query as a sequence of clauses

The renderer walks through the entities of each clause with a function of its own.  All of these
are the same walk, `Entity.renderInClause` on one entity after the other, so that a query renders
its clauses one after the other (`Query.renderNested_eq`).  Statements about queries are proved for
the entities of any clause and then for the whole sequence.
-/

namespace ScopedSelect

section Walks

/-! The walks through one clause each. -/

theorem renderSelection_eq_mapM (es : List Expr) :
    renderSelection es = es.mapM (Entity.renderInClause .select) := by
  induction es with
  | nil => simp [renderSelection]
  | cons e es ih => simp [renderSelection, ih, Entity.renderInClause, Entity.render]

theorem renderJoins_eq_mapM (js : List Join) :
    renderJoins js = js.mapM (Entity.renderInClause .join) := by
  induction js with
  | nil => simp [renderJoins]
  | cons j js ih => simp [renderJoins, ih, Entity.renderInClause]

theorem renderFilters_eq_mapM (es : List (Option Expr)) :
    renderFilters es = es.mapM (Entity.renderInClause .filter) := by
  induction es with
  | nil => simp [renderFilters]
  | cons e es ih => simp [renderFilters, ih, Entity.renderInClause, Entity.render]

/-- Nothing is rendered after the first condition on groups, which fails. -/
theorem renderHavings_eq_mapM (es : List Expr) :
    renderHavings es = es.mapM (Entity.renderInClause .having) := by
  cases es with
  | nil => simp [renderHavings]
  | cons e es => simp [renderHavings, Entity.renderInClause, Entity.render]

theorem renderOrders_eq_mapM (os : List Order) :
    renderOrders os = os.mapM (Entity.renderInClause .order) := by
  induction os with
  | nil => simp [renderOrders]
  | cons o os ih => simp [renderOrders, ih, Entity.renderInClause, Entity.render]

theorem renderInClause_source : Entity.renderInClause .source = TableDef.render := rfl

theorem renderInClause_group : Entity.renderInClause .group = Expr.render := rfl

theorem renderInClause_limit : Entity.renderInClause .limit = fun l ↦ pure (Limit.text l) := rfl

end Walks

namespace Clause

/-- The text of a clause with what the query writes before it: FROM has no keyword of its own. -/
def headed : Clause → String → String
  | .source, text => after "FROM " text
  | _, text => text

end Clause

namespace Query

/-- The scope of the clauses of a query that stands in another scope. -/
def scopeIn (q : Query) (s : Scope) : Scope :=
  s.nest (q.sources.map TableDef.symbol) (q.joins.map (·.table.symbol)) q.columnSymbols

theorem enter_eq (q : Query) (d : Domain) : q.enter d = { d with scope := q.scopeIn d.scope } := rfl

def renderClause (q : Query) (c : Clause) : Rendering String := do
  return c.headed (← c.render (q.entities c))

/-- A query renders its clauses one after the other in a domain of its own. -/
theorem renderNested_eq (q : Query) :
    q.renderNested = .nested q.enter (do return spaced (← Clause.all.mapM q.renderClause)) := by
  obtain ⟨select, sources, joins, filters, groups, havings, orders, limits⟩ := q
  simp [Query.renderNested, Clause.all, renderClause, Clause.render, Clause.headed, entities,
    renderSelection_eq_mapM, renderJoins_eq_mapM, renderFilters_eq_mapM, renderHavings_eq_mapM,
    renderOrders_eq_mapM, renderAll_eq_mapM, renderSources, renderInClause_source,
    renderInClause_group, renderInClause_limit]

end Query
end ScopedSelect
