import ScopedSelect.Proofs.Tree.Reflexivity
import ScopedSelect.Proofs.Value.Exactness
import ScopedSelect.Shorthand.Query

/-!
# Trees that equal only themselves

Equality lets trees pass for one another that are not the same: functions of the caller are compared
by name, and floats as numbers.  A tree with neither is told from every other tree, because what it
is compared with must agree in every part.  On such trees equality is an equivalence, and what is
equal renders alike, down to the values that it binds (`equal_renders_alike`).
-/

namespace ScopedSelect

/-! ## Tests that tell one thing from all others -/

/-- The test finds `a` equal to itself and to nothing else. -/
def Discerns {α : Type} (test : α → α → Bool) (a : α) : Prop :=
  ∀ b, test a b = true ↔ a = b

/-- Side by side, a list is told from every other one if its members are. -/
theorem Discerns.isEqv {α : Type} {test : α → α → Bool} {as : List α}
    (h : ∀ a ∈ as, Discerns test a) : Discerns (fun as bs ↦ as.isEqv bs test) as := by
  intro bs
  induction as generalizing bs with
  | nil => cases bs <;> simp [List.isEqv]
  | cons a as ih =>
    obtain ⟨ha, has⟩ := List.forall_mem_cons.mp h
    cases bs with
    | nil => simp [List.isEqv]
    | cons b bs => simp [List.isEqv, ha b, ih has bs]

theorem Transform.discerns {t : Transform} (h : ∀ name apply, t ≠ .custom name apply) :
    Discerns (· == ·) t := by
  intro u
  cases t with
  | custom name apply => exact absurd rfl (h name apply)
  | _ => cases u <;> simp [BEq.beq, beq]

theorem Combinator.discerns {c : Combinator} (h : ∀ name apply, c ≠ .custom name apply) :
    Discerns (· == ·) c := by
  intro d
  cases c with
  | custom name apply => exact absurd rfl (h name apply)
  | _ => cases d <;> simp [BEq.beq, beq]

theorem Folding.discerns {f : Folding} (h : f.callsBack = false) : Discerns (· == ·) f := by
  obtain ⟨map, combinator, seed⟩ := f
  obtain ⟨hmap, hcombinator⟩ := Bool.or_eq_false_iff.mp h
  obtain rfl : map = none := Option.isNone_iff_eq_none.mp (Option.isSome_eq_false_iff.mp hmap)
  have hbuiltin : Discerns (· == ·) combinator := by
    intro combinator'
    cases combinator with
    | none => cases combinator' <;> simp
    | some c =>
      have hc : Discerns (· == ·) c := Combinator.discerns fun name apply heq ↦ by
        simp [heq] at hcombinator
      cases combinator' with
      | none => simp
      | some c' => simpa using hc c'
  rintro ⟨map', combinator', seed'⟩
  change Folding.beq _ _ = true ↔ _
  cases map' <;> simp [beq, hbuiltin combinator']

/-! ## From the parts to the whole -/

theorem exprsBeq_eq_isEqv (es fs : List Expr) : exprsBeq es fs = es.isEqv fs Expr.beq := by
  induction es generalizing fs with
  | nil => cases fs <;> simp [exprsBeq, List.isEqv]
  | cons e es ih => cases fs <;> simp [exprsBeq, List.isEqv, ih]

theorem filtersBeq_eq_isEqv (fs gs : List (Option Expr)) :
    filtersBeq fs gs = fs.isEqv gs filterBeq := by
  induction fs generalizing gs with
  | nil => cases gs <;> simp [filtersBeq, List.isEqv]
  | cons f fs ih => cases gs <;> simp [filtersBeq, List.isEqv, ih]

theorem joinsBeq_eq_isEqv (js ks : List Join) : joinsBeq js ks = js.isEqv ks Join.beq := by
  induction js generalizing ks with
  | nil => cases ks <;> simp [joinsBeq, List.isEqv]
  | cons j js ih => cases ks <;> simp [joinsBeq, List.isEqv, ih]

theorem ordersBeq_eq_isEqv (os ps : List Order) : ordersBeq os ps = os.isEqv ps Order.beq := by
  induction os generalizing ps with
  | nil => cases ps <;> simp [ordersBeq, List.isEqv]
  | cons o os ih => cases ps <;> simp [ordersBeq, List.isEqv, ih]

theorem filterBeq_discerns {f : Option Expr} (h : ∀ e ∈ f, Discerns Expr.beq e) :
    Discerns filterBeq f := by
  intro g
  cases f with
  | none => cases g <;> simp [filterBeq]
  | some e => cases g <;> simp [filterBeq, h e rfl _]

theorem Join.discerns {j : Join} (h : ∀ e ∈ j.on?, Discerns Expr.beq e) : Discerns beq j := by
  obtain ⟨table, kind, on⟩ := j
  rintro ⟨table', kind', on'⟩
  simp [beq, filterBeq_discerns h on', and_assoc]

theorem Order.discerns {o : Order} (h : Discerns Expr.beq o.target) : Discerns beq o := by
  obtain ⟨target, direction⟩ := o
  rintro ⟨target', direction'⟩
  simp [beq, h target']

theorem Condition.discerns {c : Condition} (hfolding : c.folding.callsBack = false)
    (hoperands : ∀ e ∈ c.operands, Discerns Expr.beq e) : Discerns beq c := by
  obtain ⟨operands, folding⟩ := c
  rintro ⟨operands', folding'⟩
  have hes : operands.isEqv operands' Expr.beq = true ↔ operands = operands' :=
    Discerns.isEqv hoperands operands'
  have hf : (folding == folding') = true ↔ folding = folding' :=
    Folding.discerns hfolding folding'
  rw [beq, exprsBeq_eq_isEqv, Bool.and_eq_true, hes, hf, mk.injEq]

theorem Query.discerns {q : Query} (h : ∀ e ∈ q.parts, Discerns Expr.beq e) : Discerns beq q := by
  obtain ⟨select, sources, joins, filters, groups, havings, orders, limits⟩ := q
  rintro ⟨select', sources', joins', filters', groups', havings', orders', limits'⟩
  simp only [parts, List.forall_mem_append] at h
  obtain ⟨⟨⟨⟨⟨hselect, hjoins⟩, hfilters⟩, hgroups⟩, hhavings⟩, horders⟩ := h
  have hjoins' : joins.isEqv joins' Join.beq = true ↔ joins = joins' := by
    refine Discerns.isEqv (fun j hj ↦ Join.discerns fun e he ↦ hjoins e ?_) joins'
    exact List.mem_filterMap.mpr ⟨j, hj, he⟩
  have hfilters' : filters.isEqv filters' filterBeq = true ↔ filters = filters' := by
    refine Discerns.isEqv (fun f hf ↦ filterBeq_discerns fun e he ↦ hfilters e ?_) filters'
    exact List.mem_filterMap.mpr ⟨f, hf, he⟩
  have horders' : orders.isEqv orders' Order.beq = true ↔ orders = orders' := by
    refine Discerns.isEqv (fun o ho ↦ Order.discerns (horders _ ?_)) orders'
    exact List.mem_map_of_mem ho
  simp only [beq, exprsBeq_eq_isEqv, joinsBeq_eq_isEqv, filtersBeq_eq_isEqv, ordersBeq_eq_isEqv,
    Bool.and_eq_true, Discerns.isEqv hselect select', Discerns.isEqv hgroups groups',
    Discerns.isEqv hhavings havings', hjoins', hfilters', horders', beq_iff_eq, and_assoc,
    mk.injEq]

namespace Expr

/-- No float stands in the expression, at any depth, and no function of the caller is applied. -/
def Exact (e : Expr) : Prop :=
  e.Everywhere fun x ↦ x.callsBack = false ∧ ∀ v ∈ x.ownValue?, v.holdsFloat = false

instance (e : Expr) : Decidable e.Exact :=
  inferInstanceAs (Decidable (e.Everywhere _))

theorem literal_discerns {v : Value} (h : v.holdsFloat = false) : Discerns beq (.literal v) := by
  intro f
  cases f with
  | literal w =>
    rw [beq, literal.injEq]
    exact Value.beq_iff h w
  | _ => simp [beq]

/-- What is inside a decoration is told from other expressions, be it a part or a bound value. -/
theorem inner_discerns {inner : Expr} {t : Transform}
    (hvalue : ∀ v ∈ (decorated inner t).ownValue?, v.holdsFloat = false)
    (hparts : ∀ y ∈ (decorated inner t).parts, Discerns beq y) : Discerns beq inner := by
  rcases bound_or_rendered inner t with ⟨v, rfl, rfl⟩ | hrendered
  · exact literal_discerns (hvalue v rfl)
  · rw [parts_decorated hrendered] at hparts
    exact hparts inner List.mem_cons_self

theorem discerns_of_parts {e : Expr} (hcalls : e.callsBack = false)
    (hvalue : ∀ v ∈ e.ownValue?, v.holdsFloat = false)
    (hparts : ∀ y ∈ e.parts, Discerns beq y) : Discerns beq e := by
  intro f
  cases e with
  | literal v => exact literal_discerns (hvalue v rfl) f
  | decorated inner t =>
    have hinner : Discerns beq inner := inner_discerns hvalue hparts
    have ht : Discerns (· == ·) t := Transform.discerns fun name apply heq ↦ by
      simp [heq, callsBack] at hcalls
    cases f with
    | decorated inner' t' => simp [beq, hinner inner', ht t']
    | _ => simp [beq]
  | condition c =>
    cases f with
    | condition c' => rw [beq, Condition.discerns hcalls hparts c', condition.injEq]
    | _ => simp [beq]
  | subquery q =>
    cases f with
    | subquery q' => rw [beq, Query.discerns hparts q', subquery.injEq]
    | _ => simp [beq]
  | _ => cases f <;> simp [beq]

/-- By induction on the parts: an exact expression equals itself and nothing else. -/
theorem Exact.beq_iff_eq {e : Expr} (h : e.Exact) (f : Expr) : (e == f) = true ↔ e = f := by
  revert f
  change Discerns beq e
  induction e using parts_induction with
  | h e ih =>
    obtain ⟨⟨hcalls, hvalue⟩, hparts⟩ := everywhere_iff.mp h
    exact discerns_of_parts hcalls hvalue fun y hy ↦ ih y hy (hparts y hy)

end Expr

/-- No float stands in the query, at any depth, and no function of the caller is applied. -/
def Query.Exact (q : Query) : Prop :=
  (Expr.subquery q).Exact

instance (q : Query) : Decidable q.Exact :=
  inferInstanceAs (Decidable (Expr.subquery q).Exact)

theorem Query.Exact.beq_iff_eq {q : Query} (h : q.Exact) (r : Query) : (q == r) = true ↔ q = r := by
  have hsubquery : (Expr.subquery q).beq (.subquery r) = true ↔ Expr.subquery q = .subquery r :=
    Expr.Exact.beq_iff_eq h (.subquery r)
  rwa [Expr.beq, Expr.subquery.injEq] at hsubquery

/-- A test that tells each of some things from all others is an equivalence on them. -/
theorem equivalence_of_discerns {α : Type} [BEq α] {P : α → Prop}
    (h : ∀ a, P a → ∀ b, (a == b) = true ↔ a = b) :
    Equivalence fun a b : { a // P a } ↦ (a.val == b.val) = true := by
  have heq (a b : { a // P a }) : (a.val == b.val) = true ↔ a = b :=
    (h a.val a.property b.val).trans Subtype.ext_iff.symm
  simp only [heq]
  exact eq_equivalence

/-- Among trees without floats and without functions of the caller, equality is an equivalence, and
equal ones render alike: from any domain to the same text or the same refusal, and to the same
domain. -/
theorem equal_renders_alike :
    (Equivalence fun e f : { e : Expr // e.Exact } ↦ (e.val == f.val) = true) ∧
    (Equivalence fun q r : { q : Query // q.Exact } ↦ (q.val == r.val) = true) ∧
    (∀ e f : Expr, e.Exact → (e == f) = true →
      ∀ d, e.render.outcome d = f.render.outcome d) ∧
    ∀ q r : Query, q.Exact → (q == r) = true → ∀ d, q.render d = r.render d := by
  refine ⟨equivalence_of_discerns fun e he ↦ he.beq_iff_eq,
    equivalence_of_discerns fun q hq ↦ hq.beq_iff_eq, fun e f he heq d ↦ ?_, fun q r hq heq d ↦ ?_⟩
  · rw [(he.beq_iff_eq f).mp heq]
  · rw [(hq.beq_iff_eq r).mp heq]

/-- The open accounts that have an order of some value, in the short notation. -/
def Query.shortAccounts : Except Error Query := do
  let orders ← (Query.empty.source "orders" (some "o")).selectColumn ⟨"o.account", none, none⟩
  let valued ← orders.filter (Shorthand.greaterEqual "o.value" "?100")
  let accounts ← (Query.empty.source "accounts" (some "a")).selectColumn ⟨"a.id", none, none⟩
  accounts.filter <| Shorthand.allOf [Shorthand.equal "a.status" "?open",
    Shorthand.isNull "a.closed", Shorthand.member "a.id" valued]

/-- The query equals the one that was written out, and so the two render alike in every domain. -/
theorem shortAccounts_renders_alike :
    ∃ q, Query.shortAccounts = .ok q ∧ q.Exact ∧
      (q == Query.accounts (.text "open") (.text "100")) = true ∧
      ∀ d, q.render d = (Query.accounts (.text "open") (.text "100")).render d := by
  obtain ⟨q, hq, hexact, hequal⟩ : ∃ q, Query.shortAccounts = .ok q ∧ q.Exact ∧
      (q == Query.accounts (.text "open") (.text "100")) = true :=
    ⟨_, rfl, by decide, by decide +kernel⟩
  exact ⟨q, hq, hexact, hequal, equal_renders_alike.2.2.2 q _ hexact hequal⟩

end ScopedSelect
