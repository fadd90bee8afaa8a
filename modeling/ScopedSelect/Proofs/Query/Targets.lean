import Mathlib.Data.List.Forall2
import ScopedSelect.Proofs.Query.Admissible
import ScopedSelect.Proofs.Text.Digits

/-!
# What a query groups and sorts by

A text that begins with `#` is a target only if it gives the number of a column in decimal digits.
Every other text is the reference it would be elsewhere.  A target may group or sort a query unless
it is a fragment, and that is all there is to refuse: a call with several texts takes each of them
or stops at the first one that would be refused alone (`targets_accepted`).
-/

namespace ScopedSelect
namespace Shorthand

variable {spec : String} {digits written : List Char} {e : Expr} {error : Error}

/-! ## The notation for positions -/

/-- The text is a mark, perhaps a plus sign, and the decimal digits of a number. -/
def WritesPosition (spec : String) (n : Nat) : Prop :=
  ∃ sign digits, (sign = [] ∨ sign = ['+']) ∧ digits ≠ [] ∧ (∀ c ∈ digits, c.isDigit = true) ∧
    spec.toList = '#' :: (sign ++ digits) ∧ Text.decimalValue digits = n

theorem positionOf?_eq_some_iff {number : UInt32} :
    positionOf? digits = some number ↔
      digits ≠ [] ∧ (∀ c ∈ digits, c.isDigit = true) ∧ Text.decimalValue digits = number.toNat := by
  simp only [positionOf?, Text.ofDigits_eq_decimalValue]
  constructor
  · intro h
    split at h
    · rename_i hfits
      obtain ⟨hne, hall, hle⟩ := hfits
      obtain rfl := Option.some.inj h
      refine ⟨hne, List.all_eq_true.mp hall, ?_⟩
      rw [UInt32.toNat_ofNat']
      omega
    · cases h
  · rintro ⟨hne, hall, hvalue⟩
    have hle : number.toNat ≤ 0xFFFFFFFF := Nat.le_of_lt_succ number.toNat_lt
    rw [hvalue, if_pos ⟨hne, List.all_eq_true.mpr hall, hle⟩, UInt32.ofNat_toNat]

/-- A plus sign is no digit, so that it is always taken as a sign. -/
theorem withoutPlus_eq_iff (hdigits : ∀ c ∈ digits, c.isDigit = true) :
    withoutPlus written = digits ↔
      ∃ sign, (sign = [] ∨ sign = ['+']) ∧ written = sign ++ digits := by
  constructor
  · intro h
    unfold withoutPlus at h
    split at h
    · exact ⟨['+'], .inr rfl, congrArg ('+' :: ·) h⟩
    · exact ⟨[], .inl rfl, h⟩
  · rintro ⟨sign, rfl | rfl, rfl⟩
    · unfold withoutPlus
      split
      · have hdigit := hdigits '+' List.mem_cons_self
        exact absurd hdigit (by decide)
      · rfl
    · rfl

theorem afterMark?_eq_some_iff {mark : Char} {rest : String} :
    afterMark? mark spec = some rest ↔ spec.toList = mark :: rest.toList := by
  unfold afterMark?
  split
  · rename_i c cs hspec
    rw [hspec]
    split
    · rename_i hmark
      rw [Option.some.injEq, List.cons.injEq, ← String.toList_inj, String.toList_ofList]
      exact ⟨fun h ↦ ⟨hmark, h⟩, fun h ↦ h.2⟩
    · rename_i hmark
      simp [hmark]
  · rename_i hspec
    simp [hspec]

theorem afterMark?_eq_none_iff {mark : Char} :
    afterMark? mark spec = none ↔ spec.toList.head? ≠ some mark := by
  unfold afterMark?
  split
  · rename_i c cs hspec
    simp [hspec]
  · rename_i hspec
    simp [hspec]

theorem head?_of_writesPosition {n : Nat} (h : WritesPosition spec n) :
    spec.toList.head? = some '#' := by
  obtain ⟨sign, digits, -, -, -, hspec, -⟩ := h
  rw [hspec, List.head?_cons]

theorem positionOf?_of_mark {number : String} (hspec : spec.toList = '#' :: number.toList)
    (n : UInt32) :
    positionOf? (withoutPlus number.toList) = some n ↔ WritesPosition spec n.toNat := by
  rw [positionOf?_eq_some_iff]
  constructor
  · rintro ⟨hne, hdigits, hvalue⟩
    obtain ⟨sign, hsign, hnumber⟩ := (withoutPlus_eq_iff hdigits).mp rfl
    exact ⟨sign, _, hsign, hne, hdigits, hspec.trans (congrArg ('#' :: ·) hnumber), hvalue⟩
  · rintro ⟨sign, digits, hsign, hne, hdigits, hwritten, hvalue⟩
    have hnumber : number.toList = sign ++ digits :=
      (List.cons.inj (hspec.symm.trans hwritten)).2
    rw [(withoutPlus_eq_iff hdigits).mpr ⟨sign, hsign, hnumber⟩]
    exact ⟨hne, hdigits, hvalue⟩

/-! ## One target -/

theorem target_of_not_marked (h : spec.toList.head? ≠ some '#') :
    target spec = .ok (reference spec) := by
  rw [target, afterMark?_eq_none_iff.mpr h]

theorem exists_of_marked (h : spec.toList.head? = some '#') :
    ∃ number : String, spec.toList = '#' :: number.toList := by
  obtain ⟨rest, hrest⟩ := List.head?_eq_some_iff.mp h
  exact ⟨String.ofList rest, hrest.trans (by rw [String.toList_ofList])⟩

theorem target_of_writes {n : UInt32} (h : WritesPosition spec n.toNat) :
    target spec = .ok (.position ⟨n, none⟩) := by
  obtain ⟨number, hspec⟩ := exists_of_marked (head?_of_writesPosition h)
  have hnumber := (positionOf?_of_mark hspec n).mpr h
  simp only [target, afterMark?_eq_some_iff.mpr hspec, hnumber]

theorem target_of_not_writes (hmark : spec.toList.head? = some '#')
    (h : ∀ n ≤ 4294967295, ¬WritesPosition spec n) :
    target spec = .error (.invalidArgument (.notAPosition spec)) := by
  obtain ⟨number, hspec⟩ := exists_of_marked hmark
  have hnumber : positionOf? (withoutPlus number.toList) = none := by
    refine Option.eq_none_iff_forall_ne_some.mpr fun n hn ↦ ?_
    have hwrites := (positionOf?_of_mark hspec n).mp hn
    exact h _ (Nat.le_of_lt_succ n.toNat_lt) hwrites
  simp only [target, afterMark?_eq_some_iff.mpr hspec, hnumber]

theorem reference_ne_position (spec : String) (p : ColumnPosition) :
    reference spec ≠ .position p := by
  unfold reference
  repeat' split
  all_goals simp [fragment, bound]

/-- The text has no mark, or writes a position that fits, or has the mark and writes none. -/
theorem target_cases (spec : String) :
    spec.toList.head? ≠ some '#' ∨ (∃ n : UInt32, WritesPosition spec n.toNat) ∨
      spec.toList.head? = some '#' ∧ ∀ n ≤ 4294967295, ¬WritesPosition spec n := by
  by_cases hmark : spec.toList.head? = some '#'
  · by_cases hwrites : ∃ n : UInt32, WritesPosition spec n.toNat
    · exact .inr (.inl hwrites)
    · refine .inr (.inr ⟨hmark, fun n hn h ↦ hwrites ⟨.ofNat n, ?_⟩⟩)
      rwa [UInt32.toNat_ofNat_of_lt' (Nat.lt_succ_of_le hn)]
  · exact .inl hmark

/-- How a text is taken as a target: as the position that it writes, as no target if it has the mark
and writes no position that fits, and else as a reference. -/
structure ReadsTarget (spec : String) (result : Except Error Expr) : Prop where
  position : ∀ p, result = .ok (.position p) ↔
    p.alias? = none ∧ WritesPosition spec p.number.toNat
  refused : ∀ error, result = .error error ↔
    spec.toList.head? = some '#' ∧ (∀ n ≤ 4294967295, ¬WritesPosition spec n) ∧
      error = .invalidArgument (.notAPosition spec)
  reference : spec.toList.head? ≠ some '#' → result = .ok (reference spec)

/-- What each of the three cases results in tells it from the others. -/
theorem readsTarget (spec : String) : ReadsTarget spec (target spec) where
  position p := by
    constructor
    · intro h
      rcases target_cases spec with hmark | ⟨n, hwrites⟩ | ⟨hmark, hnone⟩
      · rw [target_of_not_marked hmark] at h
        exact absurd (Except.ok.inj h) (reference_ne_position spec p)
      · rw [target_of_writes hwrites] at h
        obtain rfl := Expr.position.inj (Except.ok.inj h)
        exact ⟨rfl, hwrites⟩
      · rw [target_of_not_writes hmark hnone] at h
        cases h
    · obtain ⟨n, label⟩ := p
      rintro ⟨rfl, hwrites⟩
      exact target_of_writes hwrites
  refused error := by
    constructor
    · intro h
      rcases target_cases spec with hmark | ⟨n, hwrites⟩ | ⟨hmark, hnone⟩
      · rw [target_of_not_marked hmark] at h
        cases h
      · rw [target_of_writes hwrites] at h
        cases h
      · rw [target_of_not_writes hmark hnone] at h
        exact ⟨hmark, hnone, (Except.error.inj h).symm⟩
    · rintro ⟨hmark, hnone, rfl⟩
      exact target_of_not_writes hmark hnone
  reference := target_of_not_marked

/-! ## A target in a clause -/

/-- A reference groups or sorts a query unless it is a fragment, which has a mark of its own. -/
theorem supports_reference_iff {c : Clause} (hc : c = .group ∨ c = .order) (spec : String) :
    (reference spec).supports c = true ↔ spec.toList.head? ≠ some '=' := by
  unfold reference
  rw [← afterMark?_eq_none_iff]
  cases afterMark? '=' spec with
  | some text => rcases hc with rfl | rfl <;> exact iff_of_false Bool.false_ne_true nofun
  | none =>
    refine iff_of_true ?_ rfl
    cases afterMark? '?' spec with
    | some text => rcases hc with rfl | rfl <;> rfl
    | none => rcases hc with rfl | rfl <;> rfl

theorem supports_target_iff {c : Clause} (hc : c = .group ∨ c = .order) (h : target spec = .ok e) :
    e.supports c = true ↔ spec.toList.head? ≠ some '=' := by
  rcases target_cases spec with hmark | ⟨n, hwrites⟩ | ⟨hmark, hnone⟩
  · rw [target_of_not_marked hmark] at h
    obtain rfl := Except.ok.inj h
    exact supports_reference_iff hc spec
  · rw [target_of_writes hwrites] at h
    obtain rfl := Except.ok.inj h
    refine iff_of_true ?_ ?_
    · rcases hc with rfl | rfl <;> rfl
    · rw [head?_of_writesPosition hwrites]
      decide
  · rw [target_of_not_writes hmark hnone] at h
    cases h

/-- The target that a text puts into a clause, or why it is refused there. -/
def entry (c : Clause) (spec : String) : Except Error Expr := do
  return (← Item.ofExpr c (← target spec)).expr

theorem entry_eq_ok_iff {c : Clause} (hc : c = .group ∨ c = .order) :
    entry c spec = .ok e ↔ target spec = .ok e ∧ spec.toList.head? ≠ some '=' := by
  constructor
  · intro h
    obtain ⟨target, htarget, h⟩ := exists_of_bind_eq_ok h
    obtain ⟨item, hitem, h⟩ := exists_of_bind_eq_ok h
    obtain rfl : item.expr = e := Except.ok.inj h
    rw [← Item.expr_of_ofExpr hitem] at htarget
    exact ⟨htarget, (supports_target_iff hc htarget).mp item.supported⟩
  · rintro ⟨htarget, hhead⟩
    have hsupports := (supports_target_iff hc htarget).mpr hhead
    simp only [entry, htarget, Item.ofExpr, bind, Except.bind, dif_pos hsupports]
    rfl

theorem map_entry {α : Type} (c : Clause) (spec : String) (f : Expr → α) :
    (entry c spec).map f = do
      let target ← target spec
      return f (← Item.ofExpr c target).expr := by
  unfold entry
  cases target spec with
  | error error => rfl
  | ok e =>
    change (do return (← Item.ofExpr c e).expr).map f = do return f (← Item.ofExpr c e).expr
    cases Item.ofExpr c e <;> rfl

end Shorthand

/-! ## Several targets -/

section Appending

variable {α β σ : Type}

/-- How a run takes its arguments: all of them if each is accepted `alone`, and what they become is
appended in their order; otherwise none, because of the first that is refused alone. -/
structure TakesInTurn (alone : α → Except Error σ) (becomes : α → β → Prop) (append : List β → σ)
    (as : List α) (result : Except Error σ) : Prop where
  accepted : (∃ s, result = .ok s) ↔ ∀ a ∈ as, ∃ s, alone a = .ok s
  appended : ∀ s, result = .ok s → ∃ bs, List.Forall₂ becomes as bs ∧ s = append bs
  refused : ∀ error, result = .error error ↔
    ∃ before a after, as = before ++ a :: after ∧ (∀ x ∈ before, ∃ s, alone x = .ok s) ∧
      alone a = .error error

/-- Each step appends what becomes of its argument, or is refused as that is. -/
structure AppendsBy (step : σ → α → Except Error σ) (entry : α → Except Error β)
    (append : σ → List β → σ) : Prop where
  step_eq : ∀ s a, step s a = (entry a).map fun b ↦ append s [b]
  append_nil : ∀ s, append s [] = s
  append_append : ∀ s b bs, append (append s [b]) bs = append s (b :: bs)

namespace AppendsBy

variable {step : σ → α → Except Error σ} {entry : α → Except Error β} {append : σ → List β → σ}
  (h : AppendsBy step entry append)

include h

theorem step_eq_ok_iff {s s' : σ} {a : α} :
    step s a = .ok s' ↔ ∃ b, entry a = .ok b ∧ s' = append s [b] := by
  rw [h.step_eq]
  cases entry a <;> simp [Except.map, eq_comm]

theorem step_eq_error_iff {s : σ} {a : α} {error : Error} :
    step s a = .error error ↔ entry a = .error error := by
  rw [h.step_eq]
  cases entry a <;> simp [Except.map]

/-- By induction on the arguments, whatever was appended before. -/
theorem foldlM_eq_ok_iff {as : List α} {s s' : σ} :
    as.foldlM step s = .ok s' ↔
      ∃ bs, List.Forall₂ (fun a b ↦ entry a = .ok b) as bs ∧ s' = append s bs := by
  induction as generalizing s with
  | nil =>
    constructor
    · intro hs
      exact ⟨[], .nil, (Except.ok.inj hs).symm.trans (h.append_nil s).symm⟩
    · rintro ⟨bs, hbs, rfl⟩
      obtain rfl := List.forall₂_nil_left_iff.mp hbs
      exact congrArg Except.ok (h.append_nil s).symm
  | cons a as ih =>
    rw [List.foldlM_cons]
    constructor
    · intro hs
      obtain ⟨t, ht, hs⟩ := exists_of_bind_eq_ok hs
      obtain ⟨b, hb, rfl⟩ := h.step_eq_ok_iff.mp ht
      obtain ⟨bs, hbs, rfl⟩ := ih.mp hs
      exact ⟨b :: bs, .cons hb hbs, h.append_append s b bs⟩
    · rintro ⟨_, _ | ⟨hb, hbs⟩, rfl⟩
      rw [h.step_eq_ok_iff.mpr ⟨_, hb, rfl⟩]
      exact ih.mpr ⟨_, hbs, (h.append_append s _ _).symm⟩

/-- By induction on the arguments: those before the refusal were accepted. -/
theorem foldlM_eq_error_iff {as : List α} {s : σ} {error : Error} :
    as.foldlM step s = .error error ↔
      ∃ before a after, as = before ++ a :: after ∧ (∀ x ∈ before, ∃ b, entry x = .ok b) ∧
        entry a = .error error := by
  induction as generalizing s with
  | nil => simp [pure, Except.pure]
  | cons a as ih =>
    rw [List.foldlM_cons]
    cases ha : entry a with
    | error e =>
      rw [h.step_eq_error_iff.mpr ha]
      change Except.error e = .error error ↔ _
      constructor
      · intro hs
        obtain rfl := Except.error.inj hs
        exact ⟨[], a, as, rfl, nofun, ha⟩
      · rintro ⟨_ | ⟨y, before⟩, x, after, heq, hbefore, hx⟩
        · obtain ⟨rfl, rfl⟩ := List.cons.inj heq
          exact congrArg Except.error (Except.error.inj (ha.symm.trans hx))
        · obtain ⟨rfl, rfl⟩ := List.cons.inj heq
          obtain ⟨b, hb⟩ := hbefore a List.mem_cons_self
          cases ha.symm.trans hb
    | ok b =>
      rw [h.step_eq_ok_iff.mpr ⟨b, ha, rfl⟩]
      refine Iff.trans ih ?_
      constructor
      · rintro ⟨before, x, after, rfl, hbefore, hx⟩
        exact ⟨a :: before, x, after, rfl, List.forall_mem_cons.mpr ⟨⟨b, ha⟩, hbefore⟩, hx⟩
      · rintro ⟨_ | ⟨y, before⟩, x, after, heq, hbefore, hx⟩
        · obtain ⟨rfl, rfl⟩ := List.cons.inj heq
          cases ha.symm.trans hx
        · obtain ⟨rfl, rfl⟩ := List.cons.inj heq
          exact ⟨before, x, after, rfl, (List.forall_mem_cons.mp hbefore).2, hx⟩

theorem exists_step_iff (s : σ) (a : α) : (∃ s', step s a = .ok s') ↔ ∃ b, entry a = .ok b := by
  simp only [h.step_eq_ok_iff]
  constructor
  · rintro ⟨_, b, hb, -⟩
    exact ⟨b, hb⟩
  · rintro ⟨b, hb⟩
    exact ⟨_, b, hb, rfl⟩

theorem exists_foldlM_iff (s : σ) (as : List α) :
    (∃ s', as.foldlM step s = .ok s') ↔ ∀ a ∈ as, ∃ b, entry a = .ok b := by
  induction as generalizing s with
  | nil => simp [pure, Except.pure]
  | cons a as ih =>
    rw [List.foldlM_cons, List.forall_mem_cons]
    constructor
    · rintro ⟨s', hs⟩
      obtain ⟨t, ht, hs⟩ := exists_of_bind_eq_ok hs
      exact ⟨(h.exists_step_iff s a).mp ⟨t, ht⟩, (ih t).mp ⟨s', hs⟩⟩
    · rintro ⟨ha, has⟩
      obtain ⟨t, ht⟩ := (h.exists_step_iff s a).mpr ha
      rw [ht]
      exact (ih t).mpr has

theorem takesInTurn {becomes : α → β → Prop} (hbecomes : ∀ a b, entry a = .ok b → becomes a b)
    (s : σ) (as : List α) :
    TakesInTurn (step s) becomes (append s) as (as.foldlM step s) where
  accepted := by
    simp only [h.exists_foldlM_iff, h.exists_step_iff]
  appended s' hs := by
    obtain ⟨bs, hbs, rfl⟩ := h.foldlM_eq_ok_iff.mp hs
    exact ⟨bs, hbs.imp hbecomes, rfl⟩
  refused error := by
    simp only [h.foldlM_eq_error_iff, h.exists_step_iff, h.step_eq_error_iff]

end AppendsBy

end Appending

namespace Query

/-- The query with more targets to group by. -/
def appendGroups (q : Query) (targets : List Expr) : Query :=
  { q with groups := q.groups ++ targets }

def appendOrders (q : Query) (orders : List Order) : Query :=
  { q with orders := q.orders ++ orders }

theorem groupBy_appends : AppendsBy groupBy (Shorthand.entry .group) appendGroups where
  step_eq q spec := (Shorthand.map_entry .group spec fun e ↦ q.appendGroups [e]).symm
  append_nil q := by
    cases q
    simp [appendGroups]
  append_append q e es := by simp [appendGroups]

/-- What a text and a direction put into ORDER BY. -/
def orderEntry (spec : String × Direction) : Except Error Order :=
  (Shorthand.entry .order spec.1).map fun e ↦ ⟨e, spec.2⟩

theorem orderBy_appends :
    AppendsBy (fun q (spec, direction) ↦ q.orderBy spec direction) orderEntry appendOrders where
  step_eq q spec := by
    have hmap : (orderEntry spec).map (fun o ↦ q.appendOrders [o]) =
        (Shorthand.entry .order spec.1).map fun e ↦ q.appendOrders [⟨e, spec.2⟩] := by
      unfold orderEntry
      cases Shorthand.entry .order spec.1 <;> rfl
    exact (hmap.trans (Shorthand.map_entry .order spec.1 _)).symm
  append_nil q := by
    cases q
    simp [appendOrders]
  append_append q o os := by simp [appendOrders]

theorem orderEntry_eq_ok_iff {spec : String × Direction} {o : Order} :
    orderEntry spec = .ok o ↔ Shorthand.entry .order spec.1 = .ok o.target ∧
      o.direction = spec.2 := by
  obtain ⟨target, direction⟩ := o
  unfold orderEntry
  cases Shorthand.entry .order spec.1 <;> simp [Except.map, eq_comm]

theorem exists_groupBy_iff (q : Query) (spec : String) :
    (∃ q', q.groupBy spec = .ok q') ↔
      spec.toList.head? ≠ some '=' ∧ ∃ e, Shorthand.target spec = .ok e := by
  simp only [groupBy_appends.exists_step_iff, Shorthand.entry_eq_ok_iff (.inl rfl)]
  exact exists_and_right.trans and_comm

theorem exists_orderBy_iff (q : Query) (spec : String) (direction : Direction) :
    (∃ q', q.orderBy spec direction = .ok q') ↔
      spec.toList.head? ≠ some '=' ∧ ∃ e, Shorthand.target spec = .ok e := by
  refine (orderBy_appends.exists_step_iff q (spec, direction)).trans ?_
  simp only [orderEntry_eq_ok_iff, Shorthand.entry_eq_ok_iff (.inr rfl)]
  constructor
  · rintro ⟨o, ⟨htarget, hhead⟩, -⟩
    exact ⟨hhead, o.target, htarget⟩
  · rintro ⟨hhead, e, htarget⟩
    exact ⟨⟨e, direction⟩, ⟨htarget, hhead⟩, rfl⟩

end Query

/-- A text is a target under its notation alone.  It groups or sorts a query if it is one and does
not begin with the mark of a fragment, and several are taken in turn. -/
theorem targets_accepted (q : Query) :
    (∀ spec, Shorthand.ReadsTarget spec (Shorthand.target spec)) ∧
    (∀ spec, (∃ q', q.groupBy spec = .ok q') ↔
      spec.toList.head? ≠ some '=' ∧ ∃ e, Shorthand.target spec = .ok e) ∧
    (∀ spec direction, (∃ q', q.orderBy spec direction = .ok q') ↔
      spec.toList.head? ≠ some '=' ∧ ∃ e, Shorthand.target spec = .ok e) ∧
    (∀ specs, TakesInTurn q.groupBy (fun spec e ↦ Shorthand.target spec = .ok e)
      (fun es ↦ { q with groups := q.groups ++ es }) specs (q.groupByAll specs)) ∧
    ∀ specs, TakesInTurn (fun (spec, direction) ↦ q.orderBy spec direction)
      (fun (spec, direction) o ↦ Shorthand.target spec = .ok o.target ∧ o.direction = direction)
      (fun os ↦ { q with orders := q.orders ++ os }) specs (q.orderByAll specs) := by
  refine ⟨Shorthand.readsTarget, q.exists_groupBy_iff, q.exists_orderBy_iff, fun specs ↦ ?_,
    fun specs ↦ ?_⟩
  · refine Query.groupBy_appends.takesInTurn (fun spec e he ↦ ?_) q specs
    exact ((Shorthand.entry_eq_ok_iff (.inl rfl)).mp he).1
  · refine Query.orderBy_appends.takesInTurn (fun spec o ho ↦ ?_) q specs
    obtain ⟨he, hdirection⟩ := Query.orderEntry_eq_ok_iff.mp ho
    exact ⟨((Shorthand.entry_eq_ok_iff (.inr rfl)).mp he).1, hdirection⟩

/-- The first number that does not fit is the one refused, whatever is before it. -/
example :
    Query.empty.groupByAll ["#+007", "o.state", "#4294967295", "#4294967296", "=1"] =
      .error (.invalidArgument (.notAPosition "#4294967296")) :=
  rfl

end ScopedSelect
