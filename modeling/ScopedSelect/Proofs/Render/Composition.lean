import ScopedSelect.Proofs.Render.Clauses
import ScopedSelect.Proofs.Tree.Occurrence

/-!
# Judgements that pass from the steps of a rendering to the whole

A `Walk` lists something along a tree in the order in which the tree is rendered.  A judgement about
renderings may depend on the scope they run in and on what is listed for them there.  If it holds of
every single step and passes through sequences of steps and into nested queries, it is
`Compositional`.  It then holds of every expression, entity, clause and query with what the walk
lists for it (`Compositional.render`, `entity`, `clause` and `renderNested`).
-/

namespace ScopedSelect

/-- The text of the clauses of a query, one after the other in one domain. -/
def Query.renderClauses (q : Query) : Rendering String := do
  return spaced (← Clause.all.mapM q.renderClause)

theorem Query.renderNested_eq_nested (q : Query) :
    q.renderNested = .nested q.enter q.renderClauses :=
  q.renderNested_eq

/-- What is listed along a tree in a scope: for the whole what is listed for its parts, in the order
in which they are rendered.  A bind may add something of its own, and so may what has no parts. -/
structure Walk (γ : Type) where
  expr : Scope → Expr → List γ
  entity : Scope → (c : Clause) → Entity c → List γ
  query : Scope → Query → List γ
  expr_decorated {s : Scope} {inner : Expr} {t : Transform} (ht : t ≠ .bind) :
    expr s (.decorated inner t) = expr s inner
  expr_condition (s : Scope) (c : Condition) : expr s (.condition c) = c.operands.flatMap (expr s)
  expr_subquery (s : Scope) (q : Query) : expr s (.subquery q) = query s q
  /-- The tables of an entity come before its parts.  A condition on groups is not rendered. -/
  entity_eq {s : Scope} {c : Clause} {x : Entity c} (hc : c ≠ .having) : entity s c x =
    (Entity.tables c x).flatMap (entity s .source) ++ (Entity.parts c x).flatMap (expr s)
  /-- The clauses are walked through in the scope of the query's own level. -/
  query_eq (s : Scope) (q : Query) : query s q =
    Clause.all.flatMap fun c ↦ (q.entities c).flatMap (entity (q.scopeIn s) c)

namespace Rendering

variable {γ : Type}

/-- A judgement `J` about a rendering in a scope and what a walk lists for it there passes from the
steps of a rendering to the whole, as long as the expressions satisfy `ok`. -/
structure Compositional (w : Walk γ) (ok : Expr → Prop)
    (J : Scope → {α : Type} → Rendering α → List γ → Prop) : Prop where
  pure {α : Type} (s : Scope) (a : α) : J s (Pure.pure a : Rendering α) []
  bind {α β : Type} {s : Scope} {r : Rendering α} {f : α → Rendering β} {xs ys : List γ}
    (hr : J s r xs) (hf : ∀ a, J s (f a) ys) : J s (r >>= f) (xs ++ ys)
  /-- Every nested query runs in the scope of its own level. -/
  nested {s : Scope} {q : Query} {r : Rendering String} {xs : List γ} (hq : q.Everywhere ok)
    (hr : J (q.scopeIn s) r xs) : J s (.nested q.enter r) xs
  leaf {e : Expr} {g : Scope → Except RenderError String} (s : Scope) (he : ok e)
    (hg : e.leaf? = some g) : J s (.ofScope g) (w.expr s e)
  table {q : Query} {t : TableDef} (s : Scope) (hq : ok (.subquery q)) (ht : t ∈ q.tables) :
    J (q.scopeIn s) (.ofScope t.text) (w.entity (q.scopeIn s) .source t)
  havings (s : Scope) (e : Expr) :
    J s (throw havingFailure : Rendering String) (w.entity s .having e)
  bound (s : Scope) (v : Value) : J s (.bound v) (w.expr s (.decorated (.literal v) .bind))
  /-- The text of something else is bound. -/
  rebound {s : Scope} {inner : Expr} (hinner : inner.literal? = none)
    (hr : J s inner.render (w.expr s inner)) :
    J s (do .bound (.text (← inner.render))) (w.expr s (.decorated inner .bind))
  transformed {inner : Expr} {name : String} {apply : Domain → String → String × Domain}
    (s : Scope) (he : ok (.decorated inner (.custom name apply))) (text : String) :
    J s (.transformed apply text) []

namespace Compositional

variable {w : Walk γ} {ok : Expr → Prop} {J : Scope → {α : Type} → Rendering α → List γ → Prop}
  {s : Scope} {α β : Type} {xs : List γ}

theorem map (h : Compositional w ok J) {r : Rendering α} (f : α → β) (hr : J s r xs) :
    J s (do return f (← r)) xs := by
  simpa using h.bind hr fun a ↦ h.pure s (f a)

theorem mapM (h : Compositional w ok J) {ι : Type} {g : ι → Rendering α} {list : ι → List γ}
    {is : List ι} (hg : ∀ i ∈ is, J s (g i) (list i)) : J s (is.mapM g) (is.flatMap list) := by
  induction is with
  | nil =>
    rw [List.mapM_nil]
    exact h.pure s []
  | cons i is ih =>
    rw [List.mapM_cons, List.flatMap_cons]
    have his := ih fun j hj ↦ hg j (List.mem_cons_of_mem i hj)
    exact h.bind (hg i List.mem_cons_self) fun a ↦ h.map (a :: ·) his

theorem tableDef (h : Compositional w ok J) {t : TableDef} (ht : J s (.ofScope t.text) xs) :
    J s t.render xs :=
  h.map (withAlias · t.alias?) ht

theorem filter (h : Compositional w ok J) {e : Option Expr}
    (he : ∀ e' ∈ e.toList, J s e'.render (w.expr s e')) :
    J s (renderFilter e) (e.toList.flatMap (w.expr s)) := by
  cases e with
  | none =>
    rw [renderFilter]
    exact h.pure s ""
  | some e =>
    rw [renderFilter, Option.toList_some, List.flatMap_singleton]
    exact he e List.mem_cons_self

theorem join (h : Compositional w ok J) {j : Join}
    (ht : J s (.ofScope j.table.text) (w.entity s .source j.table))
    (hon : ∀ e ∈ j.on?.toList, J s e.render (w.expr s e)) :
    J s j.render (w.entity s .source j.table ++ j.on?.toList.flatMap (w.expr s)) := by
  obtain ⟨table, kind, on⟩ := j
  rw [Join.render]
  exact h.bind (h.tableDef ht) fun text ↦ h.map (joinText text) (h.filter hon)

theorem order (h : Compositional w ok J) {o : Order} (ho : J s o.target.render xs) :
    J s o.render xs := by
  obtain ⟨target, direction⟩ := o
  rw [Order.render]
  exact h.map (· ++ " " ++ direction.keyword) ho

/-- The judgement holds of the tables and the expressions that an entity is made of. -/
structure HoldsWithin (w : Walk γ) (J : Scope → {α : Type} → Rendering α → List γ → Prop)
    (s : Scope) (c : Clause) (x : Entity c) : Prop where
  tables : ∀ t ∈ Entity.tables c x, J s (.ofScope t.text) (w.entity s .source t)
  parts : ∀ e ∈ Entity.parts c x, J s e.render (w.expr s e)

theorem entity (h : Compositional w ok J) {c : Clause} {x : Entity c} (hx : HoldsWithin w J s c x) :
    J s (Entity.render c x) (w.entity s c x) := by
  by_cases hc : c = .having
  · subst hc
    exact h.havings s x
  rw [w.entity_eq hc]
  cases c <;> simp only [Entity.tables, Entity.parts, List.flatMap_nil, List.flatMap_cons,
    List.nil_append, List.append_nil]
  case select => exact h.map (withAlias · (Expr.alias? x)) (hx.parts x List.mem_cons_self)
  case source => exact h.tableDef (hx.tables x List.mem_cons_self)
  case join => exact h.join (hx.tables _ List.mem_cons_self) hx.parts
  case filter => exact h.filter hx.parts
  case group => exact hx.parts x List.mem_cons_self
  case having => exact absurd rfl hc
  case order => exact h.order (hx.parts _ List.mem_cons_self)
  case limit => exact h.pure s ""

theorem entityInClause (h : Compositional w ok J) {c : Clause} {x : Entity c}
    (hx : HoldsWithin w J s c x) : J s (Entity.renderInClause c x) (w.entity s c x) := by
  have hentity := h.entity hx
  cases c with
  | join => exact h.map ((Join.kind x).keyword ++ " " ++ ·) hentity
  | limit =>
    rw [w.entity_eq (by simp)]
    exact h.pure s _
  | _ => exact hentity

theorem clause (h : Compositional w ok J) {c : Clause} {entities : List (Entity c)}
    (hentities : ∀ x ∈ entities, HoldsWithin w J s c x) :
    J s (c.render entities) (entities.flatMap (w.entity s c)) :=
  h.map c.assemble (h.mapM fun x hx ↦ h.entityInClause (hentities x hx))

theorem clauses (h : Compositional w ok J) {q : Query} (hq : q.Everywhere ok)
    (hparts : ∀ e ∈ q.parts, J (q.scopeIn s) e.render (w.expr (q.scopeIn s) e)) :
    J (q.scopeIn s) q.renderClauses (w.query s q) := by
  have hclause (c : Clause) (_ : c ∈ Clause.all) : J (q.scopeIn s) (q.renderClause c)
      ((q.entities c).flatMap (w.entity (q.scopeIn s) c)) := by
    refine h.map c.headed (h.clause fun x hx ↦ ⟨fun t ht ↦ ?_, fun e he ↦ ?_⟩)
    · exact h.table s hq.here (Query.mem_tables_iff.mpr ⟨c, x, hx, ht⟩)
    · exact hparts e (Query.mem_parts_iff.mpr ⟨c, x, hx, he⟩)
  rw [w.query_eq]
  exact h.map spaced (h.mapM hclause)

theorem decorated (h : Compositional w ok J) {inner : Expr} {t : Transform}
    (he : ok (.decorated inner t)) (hinner : t = .bind → inner.literal? = none)
    (hr : J s inner.render (w.expr s inner)) :
    J s (Expr.decorated inner t).render (w.expr s (.decorated inner t)) := by
  cases t with
  | function f =>
    rw [w.expr_decorated (by simp), Expr.render]
    exact h.map (f.name ++ Text.parenthesized ·) hr
  | bind =>
    have hv := hinner rfl
    simp only [Expr.render, hv]
    exact h.rebound hv hr
  | custom name apply =>
    rw [w.expr_decorated (by simp), Expr.render]
    simpa using h.bind hr (h.transformed s he)

/-- By induction on the tree: a compositional judgement holds of every expression with what is
listed for it, and of the clauses of every query. -/
theorem render_and_renderClauses (h : Compositional w ok J) :
    (∀ e : Expr, e.Everywhere ok → ∀ s, J s e.render (w.expr s e)) ∧
      ∀ q : Query, q.Everywhere ok → ∀ s, J (q.scopeIn s) q.renderClauses (w.query s q) := by
  apply Expr.leaf_induction
  case leaf =>
    intro e g hg he s
    rw [Expr.render_leaf hg]
    exact h.leaf s he.here hg
  case bound =>
    intro v _ s
    rw [Expr.render, Expr.literal?]
    exact h.bound s v
  case decorated =>
    exact fun e t hinner ih he s ↦ h.decorated he.here hinner (ih (he.inner hinner) s)
  case condition =>
    intro c ih hc s
    rw [w.expr_condition, Expr.render_condition]
    exact h.map c.folding.text (h.mapM fun e he ↦ ih e he (hc.of_mem_parts he) s)
  case subquery =>
    intro q ih hq s
    rw [w.expr_subquery, Expr.render, q.renderNested_eq_nested]
    exact h.map Text.parenthesized (h.nested hq (ih hq s))
  case query =>
    exact fun q ih hq s ↦ h.clauses hq fun e he ↦ ih e he (hq.of_mem_parts he) _

section Trees

variable (h : Compositional w ok J) {e : Expr} {q : Query}

include h

theorem render (he : e.Everywhere ok) (s : Scope) : J s e.render (w.expr s e) :=
  h.render_and_renderClauses.1 e he s

theorem renderClauses (hq : q.Everywhere ok) (s : Scope) :
    J (q.scopeIn s) q.renderClauses (w.query s q) :=
  h.render_and_renderClauses.2 q hq s

theorem renderNested (hq : q.Everywhere ok) (s : Scope) : J s q.renderNested (w.query s q) := by
  rw [q.renderNested_eq_nested]
  exact h.nested hq (h.renderClauses hq s)

end Trees
end Compositional
end Rendering
end ScopedSelect
