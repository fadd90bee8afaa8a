import ScopedSelect.Value.Basic

/-!
# Values that equal only themselves

A value that holds no floating point number equals itself and nothing else.  Of those that hold one
this cannot be said: the two zeros are equal, and a float without a value does not even equal
itself.
-/

namespace ScopedSelect

namespace JsonNumber

def isBinary : JsonNumber → Bool
  | .whole _ => false
  | .binary _ => true

theorem beq_iff {m : JsonNumber} (h : m.isBinary = false) (n : JsonNumber) :
    (m == n) = true ↔ m = n := by
  cases m with
  | whole a => cases n <;> simp [BEq.beq, beq]
  | binary x => cases h

end JsonNumber

namespace Json

mutual

/-- Whether a number of the document is a binary one. -/
def holdsBinary : Json → Bool
  | .number n => n.isBinary
  | .array items => itemsHoldBinary items
  | .object members => membersHoldBinary members
  | _ => false

def itemsHoldBinary : List Json → Bool
  | [] => false
  | item :: rest => item.holdsBinary || itemsHoldBinary rest

def membersHoldBinary : List (String × Json) → Bool
  | [] => false
  | (_, value) :: rest => value.holdsBinary || membersHoldBinary rest

end

mutual

theorem beq_iff : ∀ {d : Json}, d.holdsBinary = false → ∀ e, d.beq e = true ↔ d = e
  | .null, _, e => by cases e <;> simp [beq]
  | .bool b, _, e => by cases e <;> simp [beq]
  | .string s, _, e => by cases e <;> simp [beq]
  | .number m, h, e => by
    cases e with
    | number n => rw [beq, JsonNumber.beq_iff h, number.injEq]
    | _ => simp [beq]
  | .array items, h, e => by
    cases e with
    | array items' => rw [beq, itemsBeq_iff h, array.injEq]
    | _ => simp [beq]
  | .object members, h, e => by
    cases e with
    | object members' => rw [beq, membersBeq_iff h, object.injEq]
    | _ => simp [beq]

theorem itemsBeq_iff : ∀ {items : List Json}, itemsHoldBinary items = false →
    ∀ items', itemsBeq items items' = true ↔ items = items'
  | [], _, items' => by cases items' <;> simp [itemsBeq]
  | item :: rest, h, items' => by
    obtain ⟨hitem, hrest⟩ := Bool.or_eq_false_iff.mp h
    cases items' with
    | nil => simp [itemsBeq]
    | cons item' rest' =>
      rw [itemsBeq, Bool.and_eq_true, beq_iff hitem, itemsBeq_iff hrest, List.cons.injEq]

theorem membersBeq_iff : ∀ {members : List (String × Json)}, membersHoldBinary members = false →
    ∀ members', membersBeq members members' = true ↔ members = members'
  | [], _, members' => by cases members' <;> simp [membersBeq]
  | (key, value) :: rest, h, members' => by
    obtain ⟨hvalue, hrest⟩ := Bool.or_eq_false_iff.mp h
    rcases members' with _ | ⟨⟨key', value'⟩, rest'⟩
    · simp [membersBeq]
    · simp [membersBeq, beq_iff hvalue, membersBeq_iff hrest]

end

end Json

namespace Value

mutual

/-- Whether there is a float, be it the value itself or one that it holds. -/
def holdsFloat : Value → Bool
  | .float32 _ | .float64 _ => true
  | .json document => document.holdsBinary
  | .array items => itemsHoldFloat items
  | _ => false

def itemsHoldFloat : List Value → Bool
  | [] => false
  | item :: rest => item.holdsFloat || itemsHoldFloat rest

end

mutual

theorem beq_iff : ∀ {v : Value}, v.holdsFloat = false → ∀ w, v.beq w = true ↔ v = w
  | .null, _, w => by cases w <;> simp [beq]
  | .bool _, _, w | .int32 _, _, w | .int64 _, _, w | .text _, _, w | .bytes _, _, w => by
    cases w <;> simp [beq]
  | .json document, h, w => by
    cases w with
    | json document' => exact (Json.beq_iff h document').trans (by rw [json.injEq])
    | _ => simp [beq]
  | .array items, h, w => by
    cases w with
    | array items' => rw [beq, itemsBeq_iff h, array.injEq]
    | _ => simp [beq]

theorem itemsBeq_iff : ∀ {items : List Value}, itemsHoldFloat items = false →
    ∀ items', itemsBeq items items' = true ↔ items = items'
  | [], _, items' => by cases items' <;> simp [itemsBeq]
  | item :: rest, h, items' => by
    obtain ⟨hitem, hrest⟩ := Bool.or_eq_false_iff.mp h
    cases items' with
    | nil => simp [itemsBeq]
    | cons item' rest' =>
      rw [itemsBeq, Bool.and_eq_true, beq_iff hitem, itemsBeq_iff hrest, List.cons.injEq]

end

end Value
end ScopedSelect
