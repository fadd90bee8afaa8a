import ScopedSelect.Proofs.Tree.Traversal
import ScopedSelect.Proofs.Value.Reflexivity
import ScopedSelect.Tree.Basic

/-!
# Trees that equal themselves

Equality goes down a tree side by side.  Compared with itself, a tree of any shape agrees in
everything but the values that stand in it, also where functions of the caller are compared by name.
An expression therefore equals itself exactly if no value in it holds a float without a value
(`Expr.beq_self_iff`), and so does a query.
-/

namespace ScopedSelect

instance : ReflBEq Transform where
  rfl {t} := by cases t <;> simp [BEq.beq, Transform.beq]

instance : ReflBEq Combinator where
  rfl {c} := by cases c <;> simp [BEq.beq, Combinator.beq]

instance : ReflBEq TextMap where
  rfl {f} := beq_self_eq_true f.name

instance : ReflBEq Folding where
  rfl {f} := by
    change f.beq f = true
    simp [Folding.beq]

/-! ## Side by side -/

theorem exprsBeq_self (es : List Expr) : exprsBeq es es = es.all fun e ↦ e.beq e := by
  induction es with
  | nil => simp [exprsBeq]
  | cons e es ih => simp [exprsBeq, ih]

theorem filtersBeq_self (fs : List (Option Expr)) :
    filtersBeq fs fs = (fs.filterMap id).all fun e ↦ e.beq e := by
  induction fs with
  | nil => simp [filtersBeq]
  | cons f fs ih => cases f <;> simp [filtersBeq, filterBeq, ih]

theorem joinsBeq_self (js : List Join) :
    joinsBeq js js = (js.filterMap Join.on?).all fun e ↦ e.beq e := by
  induction js with
  | nil => simp [joinsBeq]
  | cons j js ih =>
    obtain ⟨table, kind, on⟩ := j
    cases on <;> simp [joinsBeq, Join.beq, filterBeq, ih]

theorem ordersBeq_self (os : List Order) :
    ordersBeq os os = (os.map Order.target).all fun e ↦ e.beq e := by
  induction os with
  | nil => simp [ordersBeq]
  | cons o os ih =>
    obtain ⟨target, direction⟩ := o
    simp [ordersBeq, Order.beq, ih]

theorem Condition.beq_self (c : Condition) : c.beq c = c.operands.all fun e ↦ e.beq e := by
  obtain ⟨operands, folding⟩ := c
  simp [beq, exprsBeq_self]

theorem Query.beq_self (q : Query) : q.beq q = q.parts.all fun e ↦ e.beq e := by
  obtain ⟨select, sources, joins, filters, groups, havings, orders, limits⟩ := q
  simp [beq, parts, exprsBeq_self, joinsBeq_self, filtersBeq_self, ordersBeq_self, Bool.and_assoc]

namespace Expr

/-- The value that stands in the expression itself: a literal, or the one that is bound. -/
def ownValue? : Expr → Option Value
  | .literal v => some v
  | .decorated inner .bind => inner.literal?
  | _ => none

/-- No float without a value stands in the expression, at any depth. -/
def NaNFree (e : Expr) : Prop :=
  e.Everywhere fun x ↦ ∀ v ∈ x.ownValue?, v.hasNaN = false

instance (e : Expr) : Decidable e.NaNFree :=
  inferInstanceAs (Decidable (e.Everywhere _))

theorem nanFree_iff {e : Expr} :
    e.NaNFree ↔ (∀ v ∈ e.ownValue?, v.hasNaN = false) ∧ ∀ y ∈ e.parts, y.NaNFree :=
  everywhere_iff

/-- An expression equals itself if its own value and its parts do. -/
theorem beq_self_iff_parts (e : Expr) :
    e.beq e = true ↔
      (∀ v ∈ e.ownValue?, v.hasNaN = false) ∧ ∀ y ∈ e.parts, y.beq y = true := by
  cases e with
  | literal v => simp [beq, ownValue?, parts, BEq.beq, v.beq_self]
  | decorated inner t =>
    rcases bound_or_rendered inner t with ⟨v, rfl, rfl⟩ | hrendered
    · simp [beq, ownValue?, parts, literal?, BEq.beq, v.beq_self, Transform.beq]
    · have hvalue : (decorated inner t).ownValue? = none := by
        cases t with
        | bind => exact hrendered rfl
        | _ => rfl
      simp [beq, hvalue, parts_decorated hrendered]
  | condition c => simp [beq, ownValue?, parts, c.beq_self]
  | subquery q => simp [beq, ownValue?, parts, q.beq_self]
  | _ => simp [beq, ownValue?, parts]

/-- An expression equals itself exactly if no float without a value stands in it. -/
theorem beq_self_iff (e : Expr) : (e == e) = true ↔ e.NaNFree := by
  induction e using parts_induction with
  | h e ih =>
    rw [nanFree_iff]
    exact e.beq_self_iff_parts.trans (and_congr_right fun _ ↦ forall₂_congr ih)

end Expr
end ScopedSelect
