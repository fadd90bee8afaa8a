import ScopedSelect.Proofs.Render.Clauses
import ScopedSelect.Proofs.Tree.Traversal

/-!
# Where values are bound

The bind sites of a tree are listed in the order in which rendering comes to them, those of nested
queries in their place.  `refill` puts other expressions in the place of the bound literals, each of
which may depend on the number of its site.  Both are recursions over the tree, and the walks
through the clauses are one walk through the entities of any clause (`Query.sites_eq`,
`Query.entities_refill`).
-/

namespace ScopedSelect

/-- A place where a value is bound: the literal that is bound there, unless it is the text of
something else. -/
abbrev BindSite := Option Value

def Expr.bindSite : Expr → List BindSite
  | .decorated inner .bind => [inner.literal?]
  | _ => []

def Expr.sites (e : Expr) : List BindSite :=
  e.collect bindSite

def Query.sites (q : Query) : List BindSite :=
  q.collect Expr.bindSite

namespace Expr

/-- The bind sites of the parts come before that of the whole. -/
theorem sites_eq (e : Expr) : e.sites = e.parts.flatMap sites ++ e.bindSite :=
  e.collect_eq bindSite

theorem sites_leaf {e : Expr} {g : Scope → Except RenderError String} (hg : e.leaf? = some g) :
    e.sites = [] := by
  cases e <;> simp_all [leaf?, sites_eq, parts, bindSite]

theorem sites_bound (v : Value) : (decorated (.literal v) .bind).sites = [some v] := by
  simp [sites_eq, parts, bindSite, literal?]

theorem sites_rebound {inner : Expr} (h : inner.literal? = none) :
    (decorated inner .bind).sites = inner.sites ++ [none] := by
  rw [sites_eq, parts_decorated fun _ ↦ h, List.flatMap_singleton, bindSite, h]

theorem sites_decorated {inner : Expr} {t : Transform} (h : t ≠ .bind) :
    (decorated inner t).sites = inner.sites := by
  rw [sites_eq, parts_decorated fun ht ↦ absurd ht h, List.flatMap_singleton]
  cases t <;> simp_all [bindSite]

theorem sites_condition (c : Condition) : (condition c).sites = c.operands.flatMap sites := by
  have hroot : (condition c).bindSite = [] := rfl
  rw [sites_eq, hroot, List.append_nil, parts]

theorem sites_subquery (q : Query) : (subquery q).sites = q.sites := by
  have hroot : (subquery q).bindSite = [] := rfl
  rw [sites_eq, hroot, List.append_nil]
  exact (q.collect_eq bindSite).symm

end Expr

def Entity.sites : (c : Clause) → Entity c → List BindSite
  | .select, e => Expr.sites e
  | .source, _ => []
  | .join, j => (Join.on? j).elim [] Expr.sites
  | .filter, e => Option.elim e [] Expr.sites
  | .group, e => Expr.sites e
  | .having, e => Expr.sites e
  | .order, o => Expr.sites (Order.target o)
  | .limit, _ => []

theorem Entity.sites_eq (c : Clause) (x : Entity c) :
    sites c x = (parts c x).flatMap Expr.sites := by
  have hoption (e : Option Expr) : e.elim [] Expr.sites = e.toList.flatMap Expr.sites := by
    cases e <;> simp
  cases c with
  | join => exact hoption _
  | filter => exact hoption x
  | source => rfl
  | limit => rfl
  | select => exact (List.flatMap_singleton Expr.sites x).symm
  | group => exact (List.flatMap_singleton Expr.sites x).symm
  | having => exact (List.flatMap_singleton Expr.sites x).symm
  | order => exact (List.flatMap_singleton Expr.sites _).symm

def Query.clauseSites (q : Query) (c : Clause) : List BindSite :=
  (q.entities c).flatMap (Entity.sites c)

/-- The number of the bind sites in the clauses before this one. -/
def Query.sitesBefore (q : Query) (c : Clause) : Nat :=
  ((Clause.all.takeWhile (· ≠ c)).flatMap q.clauseSites).length

mutual

/-- The expression with `f n v` in the place of every bound literal `v`, where `n` numbers the bind
sites from `k` on. -/
def Expr.refill (f : Nat → Value → Expr) : Nat → Expr → Expr
  | k, .decorated inner t =>
    match t with
    | .bind =>
      match inner.literal? with
      | some v => f k v
      | none => .decorated (inner.refill f k) .bind
    | t => .decorated (inner.refill f k) t
  | k, .condition c => .condition (c.refill f k)
  | k, .subquery q => .subquery (q.refill f k)
  | _, e => e

def Condition.refill (f : Nat → Value → Expr) : Nat → Condition → Condition
  | k, ⟨operands, folding⟩ => ⟨refillAll f k operands, folding⟩

def Join.refill (f : Nat → Value → Expr) : Nat → Join → Join
  | k, ⟨table, kind, on⟩ => ⟨table, kind, refillFilter f k on⟩

def Order.refill (f : Nat → Value → Expr) : Nat → Order → Order
  | k, ⟨target, direction⟩ => ⟨target.refill f k, direction⟩

def Query.refill (f : Nat → Value → Expr) : Nat → Query → Query
  | k, ⟨select, sources, joins, filters, groups, havings, orders, limits⟩ =>
    let before :=
      Query.sitesBefore ⟨select, sources, joins, filters, groups, havings, orders, limits⟩
    ⟨refillAll f (k + before .select) select, sources, refillJoins f (k + before .join) joins,
      refillFilters f (k + before .filter) filters, refillAll f (k + before .group) groups,
      refillAll f (k + before .having) havings, refillOrders f (k + before .order) orders, limits⟩

def refillAll (f : Nat → Value → Expr) : Nat → List Expr → List Expr
  | _, [] => []
  | k, e :: es => e.refill f k :: refillAll f (k + e.sites.length) es

def refillFilter (f : Nat → Value → Expr) : Nat → Option Expr → Option Expr
  | _, none => none
  | k, some e => some (e.refill f k)

def refillFilters (f : Nat → Value → Expr) : Nat → List (Option Expr) → List (Option Expr)
  | _, [] => []
  | k, e :: es => refillFilter f k e :: refillFilters f (k + (Entity.sites .filter e).length) es

def refillJoins (f : Nat → Value → Expr) : Nat → List Join → List Join
  | _, [] => []
  | k, j :: js => j.refill f k :: refillJoins f (k + (Entity.sites .join j).length) js

def refillOrders (f : Nat → Value → Expr) : Nat → List Order → List Order
  | _, [] => []
  | k, o :: os => o.refill f k :: refillOrders f (k + (Entity.sites .order o).length) os

end

/-- Every member of a list with the number of its first site, if the sites are numbered from `k`
on and each member has `size` of them. -/
def numbered {α : Type} (size : α → Nat) : Nat → List α → List (Nat × α)
  | _, [] => []
  | k, x :: xs => (k, x) :: numbered size (k + size x) xs

@[simp] theorem map_snd_numbered {α : Type} (size : α → Nat) (k : Nat) (xs : List α) :
    (numbered size k xs).map Prod.snd = xs := by
  induction xs generalizing k with
  | nil => rfl
  | cons x xs ih => simp [numbered, ih]

/-- What does not depend on the numbers can be done without them. -/
theorem filterMap_numbered {α β : Type} (size : α → Nat) (k : Nat) (xs : List α)
    (g : α → Option β) : (numbered size k xs).filterMap (fun p ↦ g p.2) = xs.filterMap g := by
  have h : (numbered size k xs).filterMap (fun p ↦ g p.2) =
      ((numbered size k xs).map Prod.snd).filterMap g := by
    rw [List.filterMap_map]
    rfl
  rw [h, map_snd_numbered]

theorem map_numbered {α β : Type} (size : α → Nat) (k : Nat) (xs : List α) (g : α → β) :
    (numbered size k xs).map (fun p ↦ g p.2) = xs.map g := by
  rw [← List.filterMap_eq_map, ← List.filterMap_eq_map]
  exact filterMap_numbered size k xs (some ∘ g)

/-- Sequences of all members are appended in order, whatever the numbers. -/
theorem flatMap_numbered {α β : Type} {size : α → Nat} {g : α → List β} {g' : Nat → α → List β}
    {xs : List α} (h : ∀ k, ∀ x ∈ xs, g' k x = g x) (k : Nat) :
    (numbered size k xs).flatMap (fun p ↦ g' p.1 p.2) = xs.flatMap g := by
  induction xs generalizing k with
  | nil => rfl
  | cons x xs ih =>
    have hxs := ih fun n y hy ↦ h n y (List.mem_cons_of_mem x hy)
    simp only [numbered, List.flatMap_cons, h k x List.mem_cons_self, hxs]

section Walks

variable (f : Nat → Value → Expr) (k : Nat)

/-! The walks through one clause each. -/

theorem refillAll_eq (es : List Expr) :
    refillAll f k es = (numbered (·.sites.length) k es).map fun p ↦ p.2.refill f p.1 := by
  induction es generalizing k with
  | nil => simp [refillAll, numbered]
  | cons e es ih => simp [refillAll, numbered, ih]

theorem refillFilters_eq (es : List (Option Expr)) :
    refillFilters f k es =
      (numbered (fun e ↦ (Entity.sites .filter e).length) k es).map
        fun p ↦ refillFilter f p.1 p.2 := by
  induction es generalizing k with
  | nil => simp [refillFilters, numbered]
  | cons e es ih => simp [refillFilters, numbered, ih]

theorem refillJoins_eq (js : List Join) :
    refillJoins f k js =
      (numbered (fun j ↦ (Entity.sites .join j).length) k js).map fun p ↦ p.2.refill f p.1 := by
  induction js generalizing k with
  | nil => simp [refillJoins, numbered]
  | cons j js ih => simp [refillJoins, numbered, ih]

theorem refillOrders_eq (os : List Order) :
    refillOrders f k os =
      (numbered (fun o ↦ (Entity.sites .order o).length) k os).map fun p ↦ p.2.refill f p.1 := by
  induction os generalizing k with
  | nil => simp [refillOrders, numbered]
  | cons o os ih => simp [refillOrders, numbered, ih]

/-- The operands of a condition are numbered in order. -/
theorem Expr.refill_condition (c : Condition) :
    (Expr.condition c).refill f k = .condition
      ⟨(numbered (·.sites.length) k c.operands).map fun p ↦ p.2.refill f p.1, c.folding⟩ := by
  obtain ⟨operands, folding⟩ := c
  rw [Expr.refill, Condition.refill, refillAll_eq]

end Walks

def Entity.refill (f : Nat → Value → Expr) : (c : Clause) → Nat → Entity c → Entity c
  | .select, k, e => Expr.refill f k e
  | .source, _, t => t
  | .join, k, j => Join.refill f k j
  | .filter, k, e => refillFilter f k e
  | .group, k, e => Expr.refill f k e
  | .having, k, e => Expr.refill f k e
  | .order, k, o => Order.refill f k o
  | .limit, _, l => l

namespace Query

def numberedEntities (q : Query) (k : Nat) (c : Clause) : List (Nat × Entity c) :=
  numbered (fun x ↦ (Entity.sites c x).length) k (q.entities c)

section Clauses

variable (q : Query)

theorem sites_eq : q.sites = Clause.all.flatMap q.clauseSites := by
  have hclause (c : Clause) : ((q.entities c).flatMap (Entity.parts c)).flatMap Expr.sites =
      q.clauseSites c := by
    rw [List.flatMap_assoc, clauseSites, ← funext (Entity.sites_eq c)]
  rw [← funext hclause, ← List.flatMap_assoc, ← parts_eq]
  exact q.collect_eq Expr.bindSite

theorem numbered_all (k : Nat) :
    numbered (fun c ↦ (q.clauseSites c).length) k Clause.all =
      Clause.all.map fun c ↦ (k + q.sitesBefore c, c) := by
  simp [Clause.all, numbered, sitesBefore, Nat.add_assoc]

variable (f : Nat → Value → Expr) (k : Nat)

theorem entities_refill (c : Clause) :
    (q.refill f k).entities c =
      (q.numberedEntities (k + q.sitesBefore c) c).map fun p ↦ Entity.refill f c p.1 p.2 := by
  obtain ⟨select, sources, joins, filters, groups, havings, orders, limits⟩ := q
  rw [refill]
  cases c with
  | select => exact refillAll_eq f _ select
  | source => exact ((map_numbered _ _ sources id).trans (List.map_id sources)).symm
  | join => exact refillJoins_eq f _ joins
  | filter => exact refillFilters_eq f _ filters
  | group => exact refillAll_eq f _ groups
  | having => exact refillAll_eq f _ havings
  | order => exact refillOrders_eq f _ orders
  | limit => exact ((map_numbered _ _ limits id).trans (List.map_id limits)).symm

end Clauses

end Query

/-- An expression that shows nothing but its text: no alias, no name, and no value to be bound. -/
structure Expr.Anonymous (e : Expr) : Prop where
  alias? : e.alias? = none
  symbol? : e.symbol? = some ⟨none, none, none⟩
  literal? : e.literal? = none

namespace Expr

variable {f : Nat → Value → Expr} {k : Nat}

theorem refill_leaf {e : Expr} {g : Scope → Except RenderError String} (hg : e.leaf? = some g) :
    e.refill f k = e := by
  cases e <;> simp_all [leaf?, refill]

theorem refill_bound (v : Value) : (decorated (.literal v) .bind).refill f k = f k v := by
  simp [refill, literal?]

theorem refill_decorated {inner : Expr} {t : Transform} (h : t = .bind → inner.literal? = none) :
    (decorated inner t).refill f k = .decorated (inner.refill f k) t := by
  cases t with
  | bind =>
    have hinner := h rfl
    simp [refill, hinner]
  | function g => simp [refill]
  | custom name apply => simp [refill]

/-- Anonymous expressions in the place of bound literals change nothing that is visible. -/
theorem visible_refill (hf : ∀ n v, (f n v).Anonymous) : ∀ e : Expr,
    (e.refill f k).alias? = e.alias? ∧ (e.refill f k).symbol? = e.symbol? ∧
      (e.refill f k).literal? = e.literal?
  | .decorated inner t => by
    rcases bound_or_rendered inner t with ⟨v, rfl, rfl⟩ | h
    · rw [refill_bound]
      exact ⟨(hf k v).alias?, (hf k v).symbol?, (hf k v).literal?⟩
    · rw [refill_decorated h]
      exact ⟨(visible_refill hf inner).1, (visible_refill hf inner).2.1, rfl⟩
  | .tableDef _ | .tableRef _ | .columnDef _ | .columnRef _ | .position _ | .fragment _
  | .literal _ | .nothing | .condition _ | .subquery _ => by
    simp [refill, alias?, symbol?, literal?]

end Expr

/-- A query shows the same names after its bound literals are replaced by anonymous expressions. -/
theorem Query.scopeIn_refill {f : Nat → Value → Expr} (hf : ∀ n v, (f n v).Anonymous) (k : Nat)
    (q : Query) (s : Scope) : (q.refill f k).scopeIn s = q.scopeIn s := by
  have hsymbol (n : Nat) (e : Expr) : (e.refill f n).symbol? = e.symbol? :=
    (Expr.visible_refill hf e).2.1
  have hselect (n : Nat) : (refillAll f n q.select).filterMap Expr.symbol? = q.columnSymbols := by
    rw [refillAll_eq, List.filterMap_map]
    simp only [Function.comp_def, hsymbol]
    exact filterMap_numbered _ n q.select Expr.symbol?
  have htable (n : Nat) (j : Join) : (j.refill f n).table = j.table := by
    obtain ⟨table, kind, on⟩ := j
    rw [Join.refill]
  have hjoins (n : Nat) : (refillJoins f n q.joins).map (·.table.symbol) =
      q.joins.map (·.table.symbol) := by
    rw [refillJoins_eq, List.map_map]
    simp only [Function.comp_def, htable]
    exact map_numbered _ n q.joins (·.table.symbol)
  obtain ⟨select, sources, joins, filters, groups, havings, orders, limits⟩ := q
  rw [refill, scopeIn, columnSymbols, hjoins, hselect]
  rfl

end ScopedSelect
