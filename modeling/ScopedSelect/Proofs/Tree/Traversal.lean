import ScopedSelect.Proofs.Tree.Occurrence
import ScopedSelect.Tree.Construction

/-!
# Collecting along a tree

`collect` walks through what occurs in a tree, each expression after its parts, and appends what a
function gives for it.  The walk follows the tree, so that it can be run: whether a property holds
everywhere in a tree is decided by collecting what occurs in it.
-/

namespace ScopedSelect

mutual

/-- What a function gives for everything that occurs in an expression, parts first. -/
def Expr.collect {α : Type} (g : Expr → List α) : Expr → List α
  | .decorated inner t =>
    match t with
    | .bind =>
      match inner.literal? with
      | some _ => g (.decorated inner .bind)
      | none => inner.collect g ++ g (.decorated inner .bind)
    | t => inner.collect g ++ g (.decorated inner t)
  | .condition c => c.collect g ++ g (.condition c)
  | .subquery q => q.collect g ++ g (.subquery q)
  | e => g e

def Condition.collect {α : Type} (g : Expr → List α) : Condition → List α
  | ⟨operands, _⟩ => collectAll g operands

def Join.collect {α : Type} (g : Expr → List α) : Join → List α
  | ⟨_, _, on⟩ => collectFilter g on

def Order.collect {α : Type} (g : Expr → List α) : Order → List α
  | ⟨target, _⟩ => target.collect g

def Query.collect {α : Type} (g : Expr → List α) : Query → List α
  | ⟨select, _, joins, filters, groups, havings, orders, _⟩ =>
    collectAll g select ++ collectJoins g joins ++ collectFilters g filters ++ collectAll g groups
      ++ collectAll g havings ++ collectOrders g orders

def collectAll {α : Type} (g : Expr → List α) : List Expr → List α
  | [] => []
  | e :: es => e.collect g ++ collectAll g es

def collectFilter {α : Type} (g : Expr → List α) : Option Expr → List α
  | none => []
  | some e => e.collect g

def collectFilters {α : Type} (g : Expr → List α) : List (Option Expr) → List α
  | [] => []
  | e :: es => collectFilter g e ++ collectFilters g es

def collectJoins {α : Type} (g : Expr → List α) : List Join → List α
  | [] => []
  | j :: js => j.collect g ++ collectJoins g js

def collectOrders {α : Type} (g : Expr → List α) : List Order → List α
  | [] => []
  | o :: os => o.collect g ++ collectOrders g os

end

section Walks

variable {α : Type} (g : Expr → List α)

/-! The walks through one clause each. -/

theorem collectAll_eq (es : List Expr) : collectAll g es = es.flatMap (Expr.collect g) := by
  induction es with
  | nil => simp [collectAll]
  | cons e es ih => simp [collectAll, ih]

theorem collectFilters_eq (es : List (Option Expr)) :
    collectFilters g es = (es.filterMap id).flatMap (Expr.collect g) := by
  induction es with
  | nil => simp [collectFilters]
  | cons e es ih => cases e <;> simp [collectFilters, collectFilter, ih]

theorem collectJoins_eq (js : List Join) :
    collectJoins g js = (js.filterMap Join.on?).flatMap (Expr.collect g) := by
  induction js with
  | nil => simp [collectJoins]
  | cons j js ih =>
    obtain ⟨table, kind, on⟩ := j
    cases on <;> simp [collectJoins, Join.collect, collectFilter, ih]

theorem collectOrders_eq (os : List Order) :
    collectOrders g os = (os.map Order.target).flatMap (Expr.collect g) := by
  induction os with
  | nil => simp [collectOrders]
  | cons o os ih =>
    obtain ⟨target, direction⟩ := o
    simp [collectOrders, Order.collect, ih]

end Walks

theorem Query.collect_eq {α : Type} (g : Expr → List α) (q : Query) :
    q.collect g = q.parts.flatMap (Expr.collect g) := by
  obtain ⟨select, sources, joins, filters, groups, havings, orders, limits⟩ := q
  simp [collect, parts, collectAll_eq, collectFilters_eq, collectJoins_eq, collectOrders_eq]

namespace Expr

theorem collect_eq {α : Type} (g : Expr → List α) (e : Expr) :
    e.collect g = e.parts.flatMap (collect g) ++ g e := by
  cases e with
  | decorated inner t =>
    rcases bound_or_rendered inner t with ⟨v, rfl, rfl⟩ | hinner
    · simp [collect, parts, literal?]
    · rw [parts_decorated hinner, List.flatMap_singleton]
      cases t with
      | bind =>
        have hv := hinner rfl
        simp [collect, hv]
      | function f => simp [collect]
      | custom name apply => simp [collect]
  | condition c =>
    obtain ⟨operands, folding⟩ := c
    rw [collect, Condition.collect, collectAll_eq, parts]
  | subquery q => rw [collect, Query.collect_eq, parts]
  | _ => simp [collect, parts]

/-- What is collected comes from what occurs in the expression, by induction on the parts. -/
theorem mem_collect_iff {α : Type} {g : Expr → List α} {a : α} {e : Expr} :
    a ∈ e.collect g ↔ ∃ x, Occurs x e ∧ a ∈ g x := by
  constructor
  · revert e
    apply parts_induction
    intro e ih ha
    rw [collect_eq, List.mem_append, List.mem_flatMap] at ha
    rcases ha with ⟨y, hy, ha⟩ | ha
    · obtain ⟨x, hx, ha⟩ := ih y hy ha
      exact ⟨x, .part hy hx, ha⟩
    · exact ⟨e, .self, ha⟩
  · rintro ⟨x, hx, ha⟩
    induction hx with
    | self =>
      rw [collect_eq]
      exact List.mem_append_right _ ha
    | part hy _ ih =>
      rw [collect_eq]
      exact List.mem_append_left _ (List.mem_flatMap.mpr ⟨_, hy, ih⟩)

def subterms (e : Expr) : List Expr :=
  e.collect ([·])

theorem everywhere_iff_subterms {P : Expr → Prop} {e : Expr} :
    e.Everywhere P ↔ ∀ x ∈ e.subterms, P x := by
  simp [Everywhere, subterms, mem_collect_iff]

/-- The function of the caller that the expression applies itself, if it applies one. -/
def applied? : Expr → Option (Domain → String → String × Domain)
  | .decorated _ (.custom _ apply) => some apply
  | _ => none

/-- The functions of the caller that are applied anywhere in the expression. -/
def callbacks (e : Expr) : List (Domain → String → String × Domain) :=
  e.collect fun x ↦ x.applied?.toList

theorem everywhere_of_callbacks {P : Expr → Prop}
    {Q : (Domain → String → String × Domain) → Prop} {e : Expr}
    (hP : ∀ x, (∀ apply ∈ x.applied?, Q apply) → P x) (h : ∀ apply ∈ e.callbacks, Q apply) :
    e.Everywhere P := by
  intro x hx
  refine hP x fun apply happly ↦ h apply ?_
  exact mem_collect_iff.mpr ⟨x, hx, Option.mem_toList.mpr happly⟩

instance {P : Expr → Prop} [DecidablePred P] (e : Expr) : Decidable (e.Everywhere P) :=
  decidable_of_iff _ everywhere_iff_subterms.symm

instance (e : Expr) : Decidable e.CustomFree :=
  inferInstanceAs (Decidable (e.Everywhere _))

end Expr

instance {P : Expr → Prop} [DecidablePred P] (q : Query) : Decidable (q.Everywhere P) :=
  inferInstanceAs (Decidable ((Expr.subquery q).Everywhere P))

instance (q : Query) : Decidable q.CustomFree :=
  inferInstanceAs (Decidable (Expr.subquery q).CustomFree)

/-- A query on which statements about trees are tried: the accounts with a status that were never
closed and have an order of at least some value. -/
def Query.accounts (status value : Value) : Query where
  select := [.columnDef ⟨"id", some ⟨"a"⟩, none⟩]
  sources := [⟨"accounts", some "a"⟩]
  joins := []
  filters := [some (.condition (.combining .conjunction [
    .condition (.combining (.infixed .equal) [
      .columnRef ⟨"status", some ⟨"a"⟩⟩, .decorated (.literal status) .bind]),
    .condition (.combining .isNull [.columnRef ⟨"closed", some ⟨"a"⟩⟩, .nothing]),
    .condition (.combining (.infixed .member) [.columnRef ⟨"id", some ⟨"a"⟩⟩, .subquery {
      select := [.columnDef ⟨"account", some ⟨"o"⟩, none⟩]
      sources := [⟨"orders", some "o"⟩]
      joins := []
      filters := [some (.condition (.combining (.infixed .greaterEqual) [
        .columnRef ⟨"value", some ⟨"o"⟩⟩, .decorated (.literal value) .bind]))]
      groups := []
      havings := []
      orders := []
      limits := [] }])]))]
  groups := []
  havings := []
  orders := []
  limits := []

end ScopedSelect
