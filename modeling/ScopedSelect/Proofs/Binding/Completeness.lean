import ScopedSelect.Proofs.Render.Composition
import ScopedSelect.Proofs.Render.Judgement
import ScopedSelect.Proofs.Tree.Traversal

/-!
# A query binds exactly the values of its tree

`Query.bindings` reads off the tree of a query which values it binds: those of the selected columns,
then those of the join conditions, of the filters, of the groups and of the orders, each from left
to right.  A nested query binds in its place and in the scope of its own level.

Without functions of the caller, a query that has a text binds these values: none is lost, changed,
doubled or out of order, whatever the combinators and maps make of the texts
(`render_boundValues`).
-/

namespace ScopedSelect

open Rendering

/-- The text of an expression in a scope; it is empty if the expression has none there. -/
def Expr.textIn (s : Scope) (e : Expr) : String :=
  match (e.render.outcome ⟨s, .empty⟩).1 with
  | .ok text => text
  | .error _ => ""

mutual

/-- The values that an expression binds.  A bound literal gives its value; anything else that is
bound gives what it binds itself and, after that, its text. -/
def Expr.bindings (s : Scope) : Expr → List Value
  | .decorated inner t =>
    match t with
    | .bind =>
      match inner.literal? with
      | some v => [v]
      | none => inner.bindings s ++ [.text (inner.textIn s)]
    | _ => inner.bindings s
  | .condition c => c.bindings s
  | .subquery q => q.bindings s
  | _ => []

def Condition.bindings (s : Scope) : Condition → List Value
  | ⟨operands, _⟩ => bindingsOfAll s operands

def Join.bindings (s : Scope) : Join → List Value
  | ⟨_, _, on⟩ => bindingsOfFilter s on

def Order.bindings (s : Scope) : Order → List Value
  | ⟨target, _⟩ => target.bindings s

/-- The values that a query binds if it stands in a scope. -/
def Query.bindings (s : Scope) : Query → List Value
  | ⟨select, sources, joins, filters, groups, havings, orders, limits⟩ =>
    let own := Query.scopeIn ⟨select, sources, joins, filters, groups, havings, orders, limits⟩ s
    bindingsOfAll own select ++ bindingsOfJoins own joins ++ bindingsOfFilters own filters
      ++ bindingsOfAll own groups ++ bindingsOfOrders own orders

def bindingsOfAll (s : Scope) : List Expr → List Value
  | [] => []
  | e :: es => e.bindings s ++ bindingsOfAll s es

def bindingsOfFilter (s : Scope) : Option Expr → List Value
  | none => []
  | some e => e.bindings s

def bindingsOfFilters (s : Scope) : List (Option Expr) → List Value
  | [] => []
  | e :: es => bindingsOfFilter s e ++ bindingsOfFilters s es

def bindingsOfJoins (s : Scope) : List Join → List Value
  | [] => []
  | j :: js => j.bindings s ++ bindingsOfJoins s js

def bindingsOfOrders (s : Scope) : List Order → List Value
  | [] => []
  | o :: os => o.bindings s ++ bindingsOfOrders s os

end

section Walks

variable (s : Scope)

/-! The walks through one clause each. -/

theorem bindingsOfAll_eq (es : List Expr) : bindingsOfAll s es = es.flatMap (Expr.bindings s) := by
  induction es with
  | nil => simp [bindingsOfAll]
  | cons e es ih => simp [bindingsOfAll, ih]

theorem bindingsOfFilters_eq (es : List (Option Expr)) :
    bindingsOfFilters s es = es.flatMap (bindingsOfFilter s) := by
  induction es with
  | nil => simp [bindingsOfFilters]
  | cons e es ih => simp [bindingsOfFilters, ih]

theorem bindingsOfJoins_eq (js : List Join) :
    bindingsOfJoins s js = js.flatMap (Join.bindings s) := by
  induction js with
  | nil => simp [bindingsOfJoins]
  | cons j js ih => simp [bindingsOfJoins, ih]

theorem bindingsOfOrders_eq (os : List Order) :
    bindingsOfOrders s os = os.flatMap (Order.bindings s) := by
  induction os with
  | nil => simp [bindingsOfOrders]
  | cons o os ih => simp [bindingsOfOrders, ih]

end Walks

/-- The values that an entity binds; a condition on groups has no text and binds nothing. -/
def Entity.bindings (s : Scope) : (c : Clause) → Entity c → List Value
  | .select, e => Expr.bindings s e
  | .source, _ => []
  | .join, j => Join.bindings s j
  | .filter, e => bindingsOfFilter s e
  | .group, e => Expr.bindings s e
  | .having, _ => []
  | .order, o => Order.bindings s o
  | .limit, _ => []

/-- A query binds the values of its clauses, clause by clause, in the scope of its own level. -/
theorem Query.bindings_eq (q : Query) (s : Scope) :
    q.bindings s =
      Clause.all.flatMap fun c ↦ (q.entities c).flatMap (Entity.bindings (q.scopeIn s) c) := by
  obtain ⟨select, sources, joins, filters, groups, havings, orders, limits⟩ := q
  have hnone {α : Type} (xs : List α) : xs.flatMap (fun _ ↦ ([] : List Value)) = [] :=
    List.flatMap_eq_nil_iff.mpr fun _ _ ↦ rfl
  rw [bindings, bindingsOfAll_eq, bindingsOfAll_eq, bindingsOfJoins_eq, bindingsOfFilters_eq,
    bindingsOfOrders_eq]
  simp only [Clause.all, List.flatMap_cons, List.flatMap_nil, entities, List.append_nil]
  simp only [show Entity.bindings _ .source = fun _ ↦ [] from rfl,
    show Entity.bindings _ .having = fun _ ↦ [] from rfl,
    show Entity.bindings _ .limit = fun _ ↦ [] from rfl, hnone, List.nil_append, List.append_nil,
    List.append_assoc]
  rfl

namespace Expr

theorem bindings_leaf {e : Expr} {g : Scope → Except RenderError String} (hg : e.leaf? = some g)
    (s : Scope) : e.bindings s = [] := by
  cases e <;> simp_all [leaf?, bindings]

theorem bindings_bound (s : Scope) (v : Value) :
    (decorated (.literal v) .bind).bindings s = [v] := by
  simp [bindings, literal?]

theorem bindings_rebound {inner : Expr} (s : Scope) (h : inner.literal? = none) :
    (decorated inner .bind).bindings s = inner.bindings s ++ [.text (inner.textIn s)] := by
  simp [bindings, h]

theorem bindings_decorated {inner : Expr} {t : Transform} (s : Scope) (h : t ≠ .bind) :
    (decorated inner t).bindings s = inner.bindings s := by
  cases t <;> simp_all [bindings]

theorem bindings_condition (c : Condition) (s : Scope) :
    (condition c).bindings s = c.operands.flatMap (bindings s) := by
  obtain ⟨operands, folding⟩ := c
  rw [bindings, Condition.bindings, bindingsOfAll_eq]

/-- In every domain with the scope, an expression that gives a text has that text. -/
theorem textIn_of_gives {e : Expr} {s : Scope} {text : String} {vs : List Value}
    (h : e.render.Gives s (.ok text) vs) : e.textIn s = text := by
  rw [textIn, h ⟨s, .empty⟩ rfl]

end Expr

/-- What an entity binds is what its parts bind. -/
theorem Entity.bindings_eq {s : Scope} {c : Clause} {x : Entity c} (hc : c ≠ .having) :
    bindings s c x = (tables c x).flatMap (bindings s .source) ++
      (parts c x).flatMap (Expr.bindings s) := by
  have hfilter (e : Option Expr) : bindingsOfFilter s e = e.toList.flatMap (Expr.bindings s) := by
    cases e <;> simp [bindingsOfFilter]
  cases c with
  | having => exact absurd rfl hc
  | join =>
    obtain ⟨table, kind, on⟩ := x
    simp [bindings, Join.bindings, tables, parts, hfilter]
  | filter => simp [bindings, tables, parts, hfilter]
  | order =>
    obtain ⟨target, direction⟩ := x
    simp [bindings, Order.bindings, tables, parts]
  | _ => simp [bindings, tables, parts]

/-- The values that a tree binds, listed as the tree is rendered. -/
def Walk.bindings : Walk Value where
  expr := Expr.bindings
  entity := Entity.bindings
  query s q := q.bindings s
  expr_decorated := Expr.bindings_decorated _
  expr_condition s c := Expr.bindings_condition c s
  expr_subquery s q := by rw [Expr.bindings]
  entity_eq := Entity.bindings_eq
  query_eq s q := q.bindings_eq s

theorem binds_compositional : Compositional .bindings (fun e ↦ e.appliesCustom = false)
    fun s _ r vs ↦ r.Binds s vs where
  pure s a := (Gives.pure a).binds
  bind hr hf := hr.bind fun a _ ↦ hf a
  nested _ hr := hr.nested
  leaf {e _} s _ hg := by
    have hnone : Walk.bindings.expr s e = [] := Expr.bindings_leaf hg s
    exact hnone ▸ (Gives.ofScope _).binds
  table s _ _ := (Gives.ofScope _).binds
  havings s _ := (Gives.throw havingFailure).binds
  bound s v := by
    have hvalue : Walk.bindings.expr s (.decorated (.literal v) .bind) = [v] :=
      Expr.bindings_bound s v
    exact hvalue ▸ (Gives.bound v).binds
  rebound {s inner} hinner hr := by
    have hvalues : Walk.bindings.expr s (.decorated inner .bind) =
        inner.bindings s ++ [.text (inner.textIn s)] := Expr.bindings_rebound s hinner
    refine hvalues ▸ hr.bind fun text htext ↦ ?_
    rw [Expr.textIn_of_gives htext]
    exact (Gives.bound _).binds
  transformed s he := by simp [Expr.appliesCustom] at he

/-- A query that has a text in a domain adds the values of its tree to those that are bound there.
In a fresh domain these are all. -/
theorem render_boundValues (q : Query) (h : q.CustomFree) :
    (∀ d sql, (q.render d).1 = .ok sql →
      (q.render d).2.boundValues = d.boundValues ++ q.bindings d.scope) ∧
    ∀ sql vs, q.build = .ok (sql, vs) →
      vs = q.bindings .empty ∧ (q.render .fresh).2.boundValues = q.bindings .empty := by
  have hrender (d : Domain) (sql : String) (hsql : (q.render d).1 = .ok sql) :
      (q.render d).2.boundValues = d.boundValues ++ q.bindings d.scope := by
    rcases (binds_compositional.renderNested h d.scope).error_or_ok with ⟨e, ws, he⟩ | ⟨text, htext⟩
    · rw [Query.render_of_gives he] at hsql
      simp [Except.mapError] at hsql
    · rw [Query.render_of_gives htext]
      exact d.boundValues_bindAll _
  refine ⟨hrender, fun sql vs hbuild ↦ ?_⟩
  have hfresh : (q.render .fresh).1 = .ok sql ∧ (q.render .fresh).2.boundValues = vs := by
    unfold Query.build at hbuild
    cases hq : (q.render .fresh).1 <;> simp_all [Except.map]
  have hvalues := hrender .fresh sql hfresh.1
  rw [hfresh.2] at hvalues ⊢
  exact ⟨hvalues, hvalues⟩

/-- The accounts beside the text of a condition, joined with their audits by a combinator that drops
a column. -/
def Query.auditedAccounts : Query :=
  let negated : Condition :=
    ⟨[.decorated (.literal (.int64 7)) .bind], ⟨some ⟨"not", ("NOT " ++ ·)⟩, none, none⟩⟩
  let last : Combinator := .custom "last" fun _ next ↦ next
  { Query.accounts (.text "open") (.int64 5) with
    select := [.columnDef ⟨"id", some ⟨"a"⟩, none⟩, .decorated (.condition negated) .bind]
    joins := [⟨⟨"audits", some "u"⟩, .left, some (.condition (.combining last [
      .columnRef ⟨"id", some ⟨"a"⟩⟩, .decorated (.literal (.bool true)) .bind]))⟩] }

theorem auditedAccounts_bindings :
    Query.auditedAccounts.CustomFree ∧ (∃ sql, Query.auditedAccounts.toSql = .ok sql) ∧
      Query.auditedAccounts.bindings .empty =
        [.int64 7, .text "(NOT ?)", .bool true, .text "open", .int64 5] := by
  have hfree : Query.auditedAccounts.CustomFree := by decide
  obtain ⟨sql, hbuild⟩ : ∃ sql, Query.auditedAccounts.build =
      .ok (sql, [.int64 7, .text "(NOT ?)", .bool true, .text "open", .int64 5]) := ⟨_, rfl⟩
  refine ⟨hfree, ⟨sql, ?_⟩, ((render_boundValues _ hfree).2 sql _ hbuild).1.symm⟩
  rw [Query.toSql, hbuild]
  rfl

end ScopedSelect
