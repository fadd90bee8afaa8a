import Mathlib.Data.List.Basic
import ScopedSelect.Render.Tree
import ScopedSelect.Tree.Basic

/-!
# What occurs in a tree

An expression occurs in another if its text is part of the other's text, at any depth and through
nested queries.  The value under a bind is no part: it is collected and never written.  Conditions
on a whole tree are stated by `Expr.Everywhere` and opened one level at a time.
-/

namespace ScopedSelect

namespace Expr

/-- The expressions whose texts an expression is made of. -/
def parts : Expr → List Expr
  | .decorated inner t =>
    match t, inner.literal? with
    | .bind, some _ => []
    | _, _ => [inner]
  | .condition c => c.operands
  | .subquery q => q.parts
  | _ => []

/-- The text of an expression that has no parts. -/
def leaf? : Expr → Option (Scope → Except RenderError String)
  | .tableDef t => some t.text
  | .tableRef t => some t.text
  | .columnDef c => some c.text
  | .columnRef c => some c.text
  | .position p => some fun _ ↦ .ok (toString p.number.toNat)
  | .fragment f => some fun _ ↦ .ok f.text
  | .literal v => some fun _ ↦ .ok v.literal
  | .nothing => some fun _ ↦ .ok ""
  | _ => none

/-- An expression without parts renders by looking at the scope alone. -/
theorem render_leaf {e : Expr} {g : Scope → Except RenderError String} (hg : e.leaf? = some g) :
    e.render = .ofScope g := by
  cases e <;> simp only [leaf?, Option.some.injEq, reduceCtorEq] at hg <;> subst hg <;>
    rw [render] <;> rfl

inductive Occurs (x : Expr) : Expr → Prop where
  | self : Occurs x x
  | part {y e : Expr} (hy : y ∈ e.parts) (hx : Occurs x y) : Occurs x e

/-- Every expression that occurs in a tree has a property. -/
def Everywhere (P : Expr → Prop) (e : Expr) : Prop :=
  ∀ x, Occurs x e → P x

variable {P : Expr → Prop}

theorem everywhere_iff {e : Expr} :
    e.Everywhere P ↔ P e ∧ ∀ y ∈ e.parts, y.Everywhere P := by
  constructor
  · exact fun h ↦ ⟨h e .self, fun y hy x hx ↦ h x (.part hy hx)⟩
  · rintro ⟨he, hparts⟩ x hx
    cases hx with
    | self => exact he
    | part hy hx => exact hparts _ hy x hx

theorem Everywhere.here {e : Expr} (h : e.Everywhere P) : P e := h e .self

theorem Everywhere.of_mem_parts {e y : Expr} (h : e.Everywhere P) (hy : y ∈ e.parts) :
    y.Everywhere P :=
  (everywhere_iff.mp h).2 y hy

theorem eq_of_literal? {e : Expr} {v : Value} (h : e.literal? = some v) : e = .literal v := by
  cases e <;> simp_all [literal?]

/-- A decorated expression is a bound literal, or what is decorated is rendered. -/
theorem bound_or_rendered (inner : Expr) (t : Transform) :
    (∃ v, inner = .literal v ∧ t = .bind) ∨ (t = .bind → inner.literal? = none) := by
  cases h : inner.literal? with
  | none => exact .inr fun _ ↦ rfl
  | some v =>
    cases t with
    | bind => exact .inl ⟨v, eq_of_literal? h, rfl⟩
    | function f => exact .inr (by simp)
    | custom name apply => exact .inr (by simp)

/-- What is decorated is a part of the decorated expression, unless it is a bound value. -/
theorem parts_decorated {inner : Expr} {t : Transform} (h : t = .bind → inner.literal? = none) :
    (decorated inner t).parts = [inner] := by
  cases t with
  | bind =>
    have hinner := h rfl
    simp [parts, hinner]
  | function f => simp [parts]
  | custom name apply => simp [parts]

theorem Everywhere.inner {inner : Expr} {t : Transform} (h : (decorated inner t).Everywhere P)
    (hinner : t = .bind → inner.literal? = none) : inner.Everywhere P :=
  h.of_mem_parts (by simp [parts_decorated hinner])

/-- Induction over expressions and queries, with one case for all expressions without parts and one
for a bound value. -/
theorem leaf_induction {Q : Query → Prop}
    (leaf : ∀ (e : Expr) (g : Scope → Except RenderError String), e.leaf? = some g → P e)
    (bound : ∀ v, P (.decorated (.literal v) .bind))
    (decorated : ∀ (inner : Expr) (t : Transform), (t = .bind → inner.literal? = none) →
      P inner → P (.decorated inner t))
    (condition : ∀ c : Condition, (∀ e ∈ c.operands, P e) → P (.condition c))
    (subquery : ∀ q, Q q → P (.subquery q))
    (query : ∀ q : Query, (∀ e ∈ q.parts, P e) → Q q) : (∀ e, P e) ∧ ∀ q, Q q := by
  apply Tree.induction
  case decorated =>
    intro inner t ih
    rcases bound_or_rendered inner t with ⟨v, rfl, rfl⟩ | hinner
    · exact bound v
    · exact decorated inner t hinner ih
  case condition => exact condition
  case subquery => exact subquery
  case query => exact query
  all_goals
    intros
    exact leaf _ _ rfl

theorem parts_leaf {e : Expr} {g : Scope → Except RenderError String} (hg : e.leaf? = some g) :
    e.parts = [] := by
  cases e <;> simp_all [leaf?, parts]

/-- A property that passes from the parts of an expression to the whole holds everywhere. -/
theorem parts_induction (h : ∀ e, (∀ y ∈ e.parts, P y) → P e) : ∀ e, P e := by
  have hall : (∀ e, P e) ∧ ∀ q : Query, ∀ e ∈ q.parts, P e := by
    apply leaf_induction
    case leaf => exact fun e g hg ↦ h e (by simp [parts_leaf hg])
    case bound => exact fun v ↦ h _ (by simp [parts, literal?])
    case decorated => exact fun e t hinner ih ↦ h _ (by simpa [parts_decorated hinner] using ih)
    case condition => exact fun c ih ↦ h _ ih
    case subquery => exact fun q ih ↦ h _ ih
    case query => exact fun q ih ↦ ih
  exact hall.1

def appliesCustom : Expr → Bool
  | .decorated _ (.custom _ _) => true
  | _ => false

/-- No function of the caller reads or writes the domain. -/
def CustomFree (e : Expr) : Prop :=
  e.Everywhere fun x ↦ x.appliesCustom = false

end Expr

/-- Whether a function of the caller makes the text: a map or a combinator. -/
def Folding.callsBack (f : Folding) : Bool :=
  f.map?.isSome ||
    match f.combinator? with
    | some (.custom _ _) => true
    | _ => false

namespace Expr

/-- Whether a function of the caller is applied: a transform, a map or a combinator. -/
def callsBack : Expr → Bool
  | .decorated _ (.custom _ _) => true
  | .condition c => c.folding.callsBack
  | _ => false

theorem appliesCustom_of_callsBack {e : Expr} (h : e.callsBack = false) :
    e.appliesCustom = false := by
  unfold appliesCustom
  split
  · simp [callsBack] at h
  · rfl

end Expr

/-- Every expression that occurs in a query, the query itself as an operand included, has a
property. -/
def Query.Everywhere (P : Expr → Prop) (q : Query) : Prop :=
  (Expr.subquery q).Everywhere P

def Query.CustomFree (q : Query) : Prop :=
  (Expr.subquery q).CustomFree

/-- The expressions whose texts an entity is made of. -/
def Entity.parts : (c : Clause) → Entity c → List Expr
  | .select, e => [e]
  | .source, _ => []
  | .join, j => (Join.on? j).toList
  | .filter, e => Option.toList e
  | .group, e => [e]
  | .having, e => [e]
  | .order, o => [Order.target o]
  | .limit, _ => []

/-- The parts of a query are those of the entities of its clauses, clause by clause. -/
theorem Query.parts_eq (q : Query) :
    q.parts = Clause.all.flatMap fun c ↦ (q.entities c).flatMap (Entity.parts c) := by
  simp only [parts, Clause.all, List.flatMap_cons, List.flatMap_nil, entities, List.append_nil,
    List.map_eq_flatMap, List.filterMap_eq_flatMap_toList, List.append_assoc]
  have hnone {α : Type} (xs : List α) : xs.flatMap (fun _ ↦ ([] : List Expr)) = [] :=
    List.flatMap_eq_nil_iff.mpr fun _ _ ↦ rfl
  have hself (es : List Expr) : es.flatMap (fun e ↦ [e]) = es := List.flatMap_singleton' es
  have hsources : q.sources.flatMap (Entity.parts .source) = [] := hnone q.sources
  have hlimits : q.limits.flatMap (Entity.parts .limit) = [] := hnone q.limits
  have hselect : q.select.flatMap (Entity.parts .select) = q.select := hself q.select
  have hgroups : q.groups.flatMap (Entity.parts .group) = q.groups := hself q.groups
  have hhavings : q.havings.flatMap (Entity.parts .having) = q.havings := hself q.havings
  rw [hsources, hlimits, hselect, hgroups, hhavings, List.nil_append, List.append_nil]
  rfl

theorem Query.mem_parts_iff {q : Query} {e : Expr} :
    e ∈ q.parts ↔ ∃ c, ∃ x ∈ q.entities c, e ∈ Entity.parts c x := by
  simp only [parts_eq, List.mem_flatMap, Clause.mem_all, true_and]

def Entity.tables : (c : Clause) → Entity c → List TableDef
  | .source, t => [t]
  | .join, j => [Join.table j]
  | _, _ => []

theorem Query.mem_tables_iff {q : Query} {t : TableDef} :
    t ∈ q.tables ↔ ∃ c, ∃ x ∈ q.entities c, t ∈ Entity.tables c x := by
  simp only [Query.tables, List.mem_append, List.mem_map]
  constructor
  · rintro (ht | ⟨j, hj, rfl⟩)
    · exact ⟨.source, t, ht, List.mem_cons_self⟩
    · exact ⟨.join, j, hj, List.mem_cons_self⟩
  · rintro ⟨c, x, hx, ht⟩
    cases c <;> simp only [Entity.tables, List.mem_singleton, List.not_mem_nil] at ht
    case source => exact .inl (ht ▸ hx)
    case join => exact .inr ⟨x, hx, ht.symm⟩

end ScopedSelect
