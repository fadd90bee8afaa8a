import ScopedSelect.Value.Basic

/-!
# Values that equal themselves

Values compare as their contents do.  A value therefore equals itself exactly if no binary number
without a value stands anywhere in it, be it in an array or deep in a document.
-/

namespace ScopedSelect

theorem Binary32.numEq_self (x : Binary32) : x.numEq x = !x.isNaN :=
  Binary.single.numEq_self _

theorem Binary64.numEq_self (x : Binary64) : x.numEq x = !x.isNaN :=
  Binary.double.numEq_self _

namespace JsonNumber

def isNaN : JsonNumber → Bool
  | .whole _ => false
  | .binary x => x.isNaN

theorem beq_self (n : JsonNumber) : (n == n) = !n.isNaN := by
  cases n with
  | whole n => simp [BEq.beq, beq, isNaN]
  | binary x => exact x.numEq_self

end JsonNumber

namespace Json

mutual

/-- Whether a number of the document has no value. -/
def hasNaN : Json → Bool
  | .number n => n.isNaN
  | .array items => itemsHaveNaN items
  | .object members => membersHaveNaN members
  | _ => false

def itemsHaveNaN : List Json → Bool
  | [] => false
  | item :: rest => item.hasNaN || itemsHaveNaN rest

def membersHaveNaN : List (String × Json) → Bool
  | [] => false
  | (_, value) :: rest => value.hasNaN || membersHaveNaN rest

end

mutual

theorem beq_self : ∀ d : Json, d.beq d = !d.hasNaN
  | .null => rfl
  | .bool b => by simp [beq, hasNaN]
  | .number n => by rw [beq, hasNaN, n.beq_self]
  | .string s => by simp [beq, hasNaN]
  | .array items => by rw [beq, hasNaN, itemsBeq_self items]
  | .object members => by rw [beq, hasNaN, membersBeq_self members]

theorem itemsBeq_self : ∀ items : List Json, itemsBeq items items = !itemsHaveNaN items
  | [] => rfl
  | item :: rest => by simp [itemsBeq, itemsHaveNaN, beq_self item, itemsBeq_self rest]

theorem membersBeq_self : ∀ members : List (String × Json),
    membersBeq members members = !membersHaveNaN members
  | [] => rfl
  | (key, value) :: rest => by
    simp [membersBeq, membersHaveNaN, beq_self value, membersBeq_self rest]

end

theorem itemsHaveNaN_eq_any (items : List Json) : itemsHaveNaN items = items.any hasNaN := by
  induction items with
  | nil => rfl
  | cons item rest ih => simp [itemsHaveNaN, ih]

theorem membersHaveNaN_eq_any (members : List (String × Json)) :
    membersHaveNaN members = members.any (·.2.hasNaN) := by
  induction members with
  | nil => rfl
  | cons member rest ih => simp [membersHaveNaN, ih]

end Json

namespace Value

mutual

/-- Whether a float has no value, be it the value itself or one that it holds. -/
def hasNaN : Value → Bool
  | .float32 x => x.isNaN
  | .float64 x => x.isNaN
  | .json document => document.hasNaN
  | .array items => itemsHaveNaN items
  | _ => false

def itemsHaveNaN : List Value → Bool
  | [] => false
  | item :: rest => item.hasNaN || itemsHaveNaN rest

end

mutual

theorem beq_self : ∀ v : Value, v.beq v = !v.hasNaN
  | .float32 x => by rw [beq, hasNaN, x.numEq_self]
  | .float64 x => by rw [beq, hasNaN, x.numEq_self]
  | .json document => document.beq_self
  | .array items => by rw [beq, hasNaN, itemsBeq_self items]
  | .null => rfl
  | .bool _ | .int32 _ | .int64 _ | .text _ | .bytes _ => by simp [beq, hasNaN]

theorem itemsBeq_self : ∀ items : List Value, itemsBeq items items = !itemsHaveNaN items
  | [] => rfl
  | item :: rest => by simp [itemsBeq, itemsHaveNaN, beq_self item, itemsBeq_self rest]

end

theorem itemsHaveNaN_eq_any (items : List Value) : itemsHaveNaN items = items.any hasNaN := by
  induction items with
  | nil => rfl
  | cons item rest ih => simp [itemsHaveNaN, ih]

end Value
end ScopedSelect
