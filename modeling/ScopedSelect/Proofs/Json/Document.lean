import Mathlib.Data.List.Basic
import ScopedSelect.Proofs.Value.Reflexivity

/-!
# Documents that are kept exactly

A document without binary numbers equals itself, and one whose keys ascend is its own canonical
form, which is the form of every document that was read.  `Json.nesting` counts the containers that
stand inside each other.
-/

namespace ScopedSelect
namespace Json

mutual

/-- How many arrays and objects stand inside each other. -/
def nesting : Json → Nat
  | .array items => itemsNesting items + 1
  | .object members => membersNesting members + 1
  | _ => 0

def itemsNesting : List Json → Nat
  | [] => 0
  | item :: rest => max item.nesting (itemsNesting rest)

def membersNesting : List (String × Json) → Nat
  | [] => 0
  | (_, value) :: rest => max value.nesting (membersNesting rest)

end

theorem nesting_le_itemsNesting {items : List Json} {item : Json} (h : item ∈ items) :
    item.nesting ≤ itemsNesting items := by
  induction items with
  | nil => simp at h
  | cons x rest ih =>
    rw [itemsNesting]
    rcases List.mem_cons.mp h with rfl | h
    · exact Nat.le_max_left _ _
    · exact Nat.le_trans (ih h) (Nat.le_max_right _ _)

theorem nesting_le_membersNesting {members : List (String × Json)} {member : String × Json}
    (h : member ∈ members) : member.2.nesting ≤ membersNesting members := by
  induction members with
  | nil => simp at h
  | cons x rest ih =>
    rw [membersNesting]
    rcases List.mem_cons.mp h with rfl | h
    · exact Nat.le_max_left _ _
    · exact Nat.le_trans (ih h) (Nat.le_max_right _ _)

/-- All numbers are whole and in the range of the sixty-four bit integers, signed or unsigned. -/
inductive FloatFree : Json → Prop where
  | null : FloatFree .null
  | bool (b : Bool) : FloatFree (.bool b)
  | number (n : Int) (h : -0x8000000000000000 ≤ n ∧ n ≤ 0xFFFFFFFFFFFFFFFF) :
    FloatFree (.number (.whole n))
  | string (s : String) : FloatFree (.string s)
  | array {items : List Json} (h : ∀ item ∈ items, FloatFree item) : FloatFree (.array items)
  | object {members : List (String × Json)} (h : ∀ member ∈ members, FloatFree member.2) :
    FloatFree (.object members)

/-- The keys of every object ascend strictly. -/
inductive KeysAscend : Json → Prop where
  | null : KeysAscend .null
  | bool (b : Bool) : KeysAscend (.bool b)
  | number (n : JsonNumber) : KeysAscend (.number n)
  | string (s : String) : KeysAscend (.string s)
  | array {items : List Json} (h : ∀ item ∈ items, KeysAscend item) : KeysAscend (.array items)
  | object {members : List (String × Json)} (hkeys : (members.map Prod.fst).Pairwise (· < ·))
    (h : ∀ member ∈ members, KeysAscend member.2) : KeysAscend (.object members)

/-! ## Equality -/

theorem FloatFree.hasNaN_eq_false {d : Json} (h : d.FloatFree) : d.hasNaN = false := by
  induction h with
  | number n => rfl
  | array h ih => simpa [hasNaN, itemsHaveNaN_eq_any] using ih
  | object h ih => simpa [hasNaN, membersHaveNaN_eq_any] using ih
  | _ => rfl

/-! ## Canonical form -/

theorem induction {P : Json → Prop} (null : P .null) (bool : ∀ b, P (.bool b))
    (number : ∀ n, P (.number n)) (string : ∀ s, P (.string s))
    (array : ∀ items, (∀ item ∈ items, P item) → P (.array items))
    (object : ∀ members, (∀ member ∈ members, P member.2) → P (.object members)) : ∀ d, P d := by
  intro d
  refine Json.rec (motive_1 := P) (motive_2 := fun items ↦ ∀ item ∈ items, P item)
    (motive_3 := fun members ↦ ∀ member ∈ members, P member.2) (motive_4 := fun m ↦ P m.2)
    null bool number string array object ?_ ?_ ?_ ?_ ?_ d
  · simp
  · exact fun item rest hitem hrest ↦ List.forall_mem_cons.mpr ⟨hitem, hrest⟩
  · simp
  · exact fun member rest hmember hrest ↦ List.forall_mem_cons.mpr ⟨hmember, hrest⟩
  · exact fun key value hvalue ↦ hvalue

/-- A member whose key comes after all others is put last. -/
theorem insertMember_of_forall_lt {key : String} {value : Json} {members : List (String × Json)}
    (h : ∀ k ∈ members.map Prod.fst, k < key) :
    insertMember key value members = members ++ [(key, value)] := by
  induction members with
  | nil => rfl
  | cons member rest ih =>
    obtain ⟨k, v⟩ := member
    have hk : k < key := h k List.mem_cons_self
    have hne : key ≠ k := fun heq ↦ String.lt_irrefl k (heq ▸ hk)
    have hnlt : ¬key < k := String.lt_asymm hk
    rw [insertMember, if_neg hne, if_neg hnlt, ih fun k' hk' ↦ h k' (List.mem_cons_of_mem _ hk'),
      List.cons_append]

/-- Members in their order are put one after the other, by induction on those still to be put. -/
theorem foldl_insertMember (done todo : List (String × Json))
    (h : ((done ++ todo).map Prod.fst).Pairwise (· < ·)) :
    todo.foldl (fun kept (key, value) ↦ insertMember key value kept) done = done ++ todo := by
  induction todo generalizing done with
  | nil => simp
  | cons member todo ih =>
    obtain ⟨key, value⟩ := member
    have hlast : ∀ k ∈ done.map Prod.fst, k < key := by
      rw [List.map_append, List.pairwise_append] at h
      exact fun k hk ↦ h.2.2 k hk key List.mem_cons_self
    have hstep : insertMember key value done = done ++ [(key, value)] :=
      insertMember_of_forall_lt hlast
    simp only [List.foldl_cons, hstep]
    rw [ih _ (by simpa using h), List.append_assoc, List.singleton_append]

theorem ofMembers_of_pairwise {members : List (String × Json)}
    (h : (members.map Prod.fst).Pairwise (· < ·)) : ofMembers members = .object members := by
  rw [ofMembers, foldl_insertMember [] members h, List.nil_append]

theorem KeysAscend.canonical_eq {d : Json} (h : d.KeysAscend) : d.canonical = d := by
  induction h with
  | null | bool | number | string => rw [canonical]
  | array h ih =>
    rename_i items
    have hitems : items.map canonical = items :=
      (List.map_congr_left ih).trans (List.map_id items)
    rw [canonical, canonicalItems_eq_map, hitems]
  | object hkeys h ih =>
    rename_i members
    have hmembers : members.map (fun (key, value) ↦ (key, canonical value)) = members := by
      refine (List.map_congr_left fun member hmember ↦ ?_).trans (List.map_id members)
      obtain ⟨key, value⟩ := member
      exact congrArg (key, ·) (ih _ hmember)
    rw [canonical, canonicalMembers_eq_map, hmembers, ofMembers_of_pairwise hkeys]

theorem mem_insertMember {key : String} {value : Json} {members : List (String × Json)}
    {member : String × Json} (h : member ∈ insertMember key value members) :
    member = (key, value) ∨ member ∈ members := by
  fun_induction insertMember key value members with
  | case1 => exact .inl (List.mem_singleton.mp h)
  | case2 =>
    rcases List.mem_cons.mp h with rfl | h
    · exact .inl rfl
    · exact .inr (List.mem_cons_of_mem _ h)
  | case3 => exact List.mem_cons.mp h
  | case4 k v rest hne hnlt ih =>
    rcases List.mem_cons.mp h with rfl | h
    · exact .inr List.mem_cons_self
    · exact (ih h).imp_right (List.mem_cons_of_mem _)

theorem pairwise_insertMember (key : String) (value : Json) {members : List (String × Json)}
    (h : (members.map Prod.fst).Pairwise (· < ·)) :
    ((insertMember key value members).map Prod.fst).Pairwise (· < ·) := by
  fun_induction insertMember key value members with
  | case1 => simp
  | case2 => exact h
  | case3 k v rest hne hlt =>
    obtain ⟨hk, hrest⟩ := List.pairwise_cons.mp h
    refine List.pairwise_cons.mpr ⟨fun l hl ↦ ?_, h⟩
    rcases List.mem_cons.mp hl with rfl | hl
    · exact hlt
    · exact String.lt_trans hlt (hk l hl)
  | case4 k v rest hne hnlt ih =>
    obtain ⟨hk, hrest⟩ := List.pairwise_cons.mp h
    refine List.pairwise_cons.mpr ⟨fun l hl ↦ ?_, ih hrest⟩
    obtain ⟨member, hmember, rfl⟩ := List.mem_map.mp hl
    rcases mem_insertMember hmember with rfl | hmember
    · by_contra hnlt'
      exact hne (String.le_antisymm (String.not_lt.mp hnlt') (String.not_lt.mp hnlt))
    · exact hk _ (List.mem_map_of_mem hmember)

/-- What was put so far keeps its order and its values, whatever is still to be put. -/
theorem keysAscend_foldl {done todo : List (String × Json)}
    (hkeys : (done.map Prod.fst).Pairwise (· < ·)) (hdone : ∀ member ∈ done, member.2.KeysAscend)
    (htodo : ∀ member ∈ todo, member.2.KeysAscend) :
    KeysAscend (.object
      (todo.foldl (fun kept (key, value) ↦ insertMember key value kept) done)) := by
  induction todo generalizing done with
  | nil => exact .object hkeys hdone
  | cons member todo ih =>
    obtain ⟨hmember, htodo⟩ := List.forall_mem_cons.mp htodo
    refine ih (pairwise_insertMember _ _ hkeys) (fun m hm ↦ ?_) htodo
    rcases mem_insertMember hm with rfl | hm
    · exact hmember
    · exact hdone m hm

theorem keysAscend_canonical (d : Json) : d.canonical.KeysAscend := by
  induction d using induction with
  | null => exact .null
  | bool b => exact .bool b
  | number n => exact .number n
  | string s => exact .string s
  | array items ih =>
    rw [canonical, canonicalItems_eq_map]
    refine .array fun item hitem ↦ ?_
    obtain ⟨written, hwritten, rfl⟩ := List.mem_map.mp hitem
    exact ih written hwritten
  | object members ih =>
    rw [canonical, canonicalMembers_eq_map]
    refine keysAscend_foldl (by simp) (by simp) fun member hmember ↦ ?_
    obtain ⟨written, hwritten, rfl⟩ := List.mem_map.mp hmember
    exact ih written hwritten

end Json
end ScopedSelect
