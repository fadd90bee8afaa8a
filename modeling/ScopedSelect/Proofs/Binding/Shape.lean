import ScopedSelect.Proofs.Binding.Sites

/-!
# The shape of a query

Two queries have the same shape if they become the same query when a fixed value takes the place of
every bound literal.  The bind sites stay where they are, whatever value takes the place of theirs
(`sites_refill_bindAs`).
-/

namespace ScopedSelect

def Expr.bindAs (g : Value → Value) (_ : Nat) (v : Value) : Expr :=
  .decorated (.literal (g v)) .bind

theorem Expr.bindAs_anonymous (g : Value → Value) (n : Nat) (v : Value) :
    (bindAs g n v).Anonymous :=
  ⟨rfl, rfl, rfl⟩

theorem Expr.render_bindAs (g : Value → Value) (n : Nat) (v : Value) :
    (bindAs g n v).render = .bound (g v) := by
  simp [bindAs, render, literal?]

def Query.mapBound (g : Value → Value) (q : Query) : Query :=
  q.refill (Expr.bindAs g) 0

/-- What is left of a query without its bound values. -/
def Query.shape (q : Query) : Query :=
  q.mapBound fun _ ↦ .null

section Sites

variable (g : Value → Value)

theorem refillFilter_bindAs_sites {e : Option Expr} {k : Nat}
    (h : ∀ e' ∈ e, (e'.refill (Expr.bindAs g) k).sites = e'.sites.map (Option.map g)) :
    (refillFilter (Expr.bindAs g) k e).elim [] Expr.sites =
      (e.elim [] Expr.sites).map (Option.map g) := by
  cases e with
  | none => simp [refillFilter]
  | some e => simpa [refillFilter] using h e rfl

theorem Entity.sites_refill_bindAs {c : Clause} {x : Entity c} {k : Nat}
    (h : ∀ e ∈ parts c x, (e.refill (Expr.bindAs g) k).sites = e.sites.map (Option.map g)) :
    sites c (refill (Expr.bindAs g) c k x) = (sites c x).map (Option.map g) := by
  cases c with
  | select => exact h x List.mem_cons_self
  | source => rfl
  | join =>
    obtain ⟨table, kind, on⟩ := x
    simp only [sites, refill, Join.refill]
    exact refillFilter_bindAs_sites g fun e he ↦ h e (Option.mem_toList.mpr he)
  | filter => exact refillFilter_bindAs_sites g fun e he ↦ h e (Option.mem_toList.mpr he)
  | group => exact h x List.mem_cons_self
  | having => exact h x List.mem_cons_self
  | order =>
    obtain ⟨target, direction⟩ := x
    simpa only [sites, refill, Order.refill] using h target List.mem_cons_self
  | limit => rfl

/-- The bound literals are other ones, and every site is still there. -/
theorem sites_refill_bindAs :
    (∀ e : Expr, ∀ k, (e.refill (Expr.bindAs g) k).sites = e.sites.map (Option.map g)) ∧
      ∀ q : Query, ∀ k, (q.refill (Expr.bindAs g) k).sites = q.sites.map (Option.map g) := by
  apply Expr.leaf_induction
  case leaf =>
    intro e text htext k
    rw [Expr.refill_leaf htext, Expr.sites_leaf htext, List.map_nil]
  case bound =>
    intro v k
    rw [Expr.refill_bound, Expr.bindAs, Expr.sites_bound, Expr.sites_bound]
    rfl
  case decorated =>
    intro e t hinner ih k
    rw [Expr.refill_decorated hinner]
    by_cases ht : t = .bind
    · subst ht
      have hv := hinner rfl
      have hv' : (e.refill (Expr.bindAs g) k).literal? = none := by
        rw [(Expr.visible_refill (Expr.bindAs_anonymous g) e).2.2, hv]
      rw [Expr.sites_rebound hv, Expr.sites_rebound hv', ih k, List.map_append]
      rfl
    · rw [Expr.sites_decorated ht, Expr.sites_decorated ht, ih k]
  case condition =>
    intro c ih k
    rw [Expr.refill_condition, Expr.sites_condition, Expr.sites_condition, List.map_flatMap,
      List.flatMap_map]
    exact flatMap_numbered (fun n e he ↦ ih e he n) k
  case subquery =>
    intro q ih k
    rw [Expr.refill, Expr.sites_subquery, Expr.sites_subquery]
    exact ih k
  case query =>
    intro q ih k
    have hentity (c : Clause) (n : Nat) (x : Entity c) (hx : x ∈ q.entities c) :
        Entity.sites c (Entity.refill (Expr.bindAs g) c n x) =
          (Entity.sites c x).map (Option.map g) :=
      Entity.sites_refill_bindAs g fun e he ↦ ih e (Query.mem_parts_iff.mpr ⟨c, x, hx, he⟩) n
    have hclause (c : Clause) : (q.refill (Expr.bindAs g) k).clauseSites c =
        (q.clauseSites c).map (Option.map g) := by
      rw [Query.clauseSites, q.entities_refill, List.flatMap_map, Query.clauseSites,
        List.map_flatMap]
      exact flatMap_numbered (hentity c) _
    rw [Query.sites_eq, Query.sites_eq, List.map_flatMap]
    exact congrArg (List.flatMap · Clause.all) (funext hclause)

end Sites

end ScopedSelect
