import ScopedSelect.Value.Basic

/-!
# The state that flows through a rendering

Beside the text, a rendering writes into an ordered map from keys to slots.  A slot holds one value
that was set, or the values that were added one after the other.  A key keeps the position of its
first write: `alterEntries` replaces a slot where it stands and puts a new one last, so that no key
comes twice.
-/

namespace ScopedSelect

inductive Slot where
  | one (v : Value)
  | many (vs : List Value)

namespace Slot

def values : Slot → List Value
  | .one v => [v]
  | .many vs => vs

/-- The slot after one more value; a slot that was never written holds nothing. -/
def push (v : Value) : Option Slot → Slot
  | none => .many [v]
  | some slot => .many (slot.values ++ [v])

/-- Equality of slots; one value differs from a sequence of one. -/
def beq : Slot → Slot → Bool
  | .one v, .one w => v == w
  | .many vs, .many ws => vs == ws
  | _, _ => false

instance : BEq Slot := ⟨beq⟩

@[simp] theorem values_push (v : Value) (slot : Option Slot) :
    (push v slot).values = slot.elim [] values ++ [v] := by
  cases slot <;> rfl

end Slot

namespace State

/-- Replace the first entry under `key`, or put one last if there is none. -/
def alterEntries (key : String) (f : Option Slot → Slot) :
    List (String × Slot) → List (String × Slot)
  | [] => [(key, f none)]
  | (k, slot) :: rest =>
    if key == k then (k, f (some slot)) :: rest else (k, slot) :: alterEntries key f rest

section Entries

variable (key : String) (f : Option Slot → Slot) (entries : List (String × Slot))

/-- A change keeps every key where it stands, and a new key comes last. -/
theorem map_fst_alterEntries :
    (alterEntries key f entries).map Prod.fst =
      if key ∈ entries.map Prod.fst then entries.map Prod.fst
      else entries.map Prod.fst ++ [key] := by
  induction entries with
  | nil => simp [alterEntries]
  | cons entry rest ih =>
    obtain ⟨k, slot⟩ := entry
    by_cases hk : key = k
    · simp [alterEntries, hk]
    · by_cases hm : key ∈ rest.map Prod.fst <;>
        simp only [hm, ↓reduceIte] at ih <;>
        simp only [alterEntries, beq_false_of_ne hk, List.map_cons, Bool.false_eq_true, ↓reduceIte,
          List.mem_cons, hk, hm, false_or, ih, List.cons_append]

theorem nodup_alterEntries (h : (entries.map Prod.fst).Nodup) :
    ((alterEntries key f entries).map Prod.fst).Nodup := by
  rw [map_fst_alterEntries]
  split
  · exact h
  · rename_i hm
    rw [List.nodup_append]
    refine ⟨h, List.pairwise_singleton _ _, fun a ha b hb hab ↦ hm ?_⟩
    rw [← List.mem_singleton.mp hb, ← hab]
    exact ha

theorem lookup_alterEntries_self :
    (alterEntries key f entries).lookup key = some (f (entries.lookup key)) := by
  induction entries with
  | nil => simp [alterEntries]
  | cons entry rest ih =>
    obtain ⟨k, slot⟩ := entry
    by_cases hk : key = k
    · simp [alterEntries, hk]
    · simp [alterEntries, List.lookup_cons, beq_false_of_ne hk, ih]

theorem lookup_alterEntries_of_ne {other : String} (h : other ≠ key) :
    (alterEntries key f entries).lookup other = entries.lookup other := by
  induction entries with
  | nil => simp [alterEntries, List.lookup_cons, beq_false_of_ne h]
  | cons entry rest ih =>
    obtain ⟨k, slot⟩ := entry
    by_cases hk : key = k
    · subst hk
      simp [alterEntries, List.lookup_cons, beq_false_of_ne h]
    · by_cases ho : other = k <;>
        simp [alterEntries, List.lookup_cons, beq_false_of_ne hk, ih]

end Entries
end State

/-- An ordered map from keys to slots.  No key stands at two places. -/
@[ext] structure State where
  entries : List (String × Slot)
  nodup : (entries.map Prod.fst).Nodup

namespace State

def empty : State := ⟨[], List.nodup_nil⟩

def keys (s : State) : List String :=
  s.entries.map Prod.fst

def find? (s : State) (key : String) : Option Slot :=
  s.entries.lookup key

def alter (s : State) (key : String) (f : Option Slot → Slot) : State :=
  ⟨alterEntries key f s.entries, nodup_alterEntries key f s.entries s.nodup⟩

def set (s : State) (key : String) (slot : Slot) : State :=
  s.alter key fun _ ↦ slot

def add (s : State) (key : String) (v : Value) : State :=
  s.alter key (Slot.push v)

def setAll (s other : State) : State :=
  other.entries.foldl (fun s (key, slot) ↦ s.set key slot) s

@[simp] theorem find?_alter_self (s : State) (key : String) (f : Option Slot → Slot) :
    (s.alter key f).find? key = some (f (s.find? key)) :=
  lookup_alterEntries_self key f s.entries

theorem find?_alter_of_ne (s : State) {key other : String} (h : other ≠ key)
    (f : Option Slot → Slot) : (s.alter key f).find? other = s.find? other :=
  lookup_alterEntries_of_ne key f s.entries h

/-- A change keeps every key where it stands, and a new key comes last. -/
theorem keys_alter (s : State) (key : String) (f : Option Slot → Slot) :
    (s.alter key f).keys = if key ∈ s.keys then s.keys else s.keys ++ [key] :=
  map_fst_alterEntries key f s.entries

end State
end ScopedSelect
