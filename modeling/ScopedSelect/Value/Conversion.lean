import ScopedSelect.Text.Basic
import ScopedSelect.Value.Basic

/-!
# What can be used as a value

`ToValue` turns the types of a program into values.  Dates, identifiers and fixed-point numbers
become texts, lists become arrays, a list of bytes becomes a byte string, and something absent
becomes the null value.
-/

namespace ScopedSelect

/-! ## Dates and times

Years of at most four digits are written with four, any other with a sign.  A fraction of a second
is written with no, three, six or nine digits, the fewest that are exact.  A nanosecond count of a
full second or more stands for the leap second that follows. -/

structure Date where
  year : Int
  month : Nat
  day : Nat

structure TimeOfDay where
  hour : Nat
  minute : Nat
  second : Nat
  nanosecond : Nat

structure DateTime where
  date : Date
  time : TimeOfDay

structure UtcDateTime where
  moment : DateTime

namespace Date

def yearText (year : Int) : String :=
  if 0 ≤ year ∧ year ≤ 9999 then Text.padded 4 year.toNat
  else (if year < 0 then "-" else "+") ++ Text.padded 4 year.natAbs

/-- Year, month and day with hyphens between them. -/
def text (d : Date) : String :=
  yearText d.year ++ "-" ++ Text.padded 2 d.month ++ "-" ++ Text.padded 2 d.day

end Date

namespace TimeOfDay

def nanosecondsPerSecond : Nat := 1000000000

def fractionText (nanosecond : Nat) : String :=
  if nanosecond = 0 then ""
  else if nanosecond % 1000000 = 0 then "." ++ Text.padded 3 (nanosecond / 1000000)
  else if nanosecond % 1000 = 0 then "." ++ Text.padded 6 (nanosecond / 1000)
  else "." ++ Text.padded 9 nanosecond

/-- Hour, minute and second with colons between them, and the fraction. -/
def text (t : TimeOfDay) : String :=
  Text.padded 2 t.hour ++ ":" ++ Text.padded 2 t.minute ++ ":"
    ++ Text.padded 2 (t.second + t.nanosecond / nanosecondsPerSecond)
    ++ fractionText (t.nanosecond % nanosecondsPerSecond)

end TimeOfDay

def DateTime.text (d : DateTime) : String :=
  d.date.text ++ " " ++ d.time.text

/-- Date and time with a `T` between them and the offset of the universal zone. -/
def UtcDateTime.text (d : UtcDateTime) : String :=
  d.moment.date.text ++ "T" ++ d.moment.time.text ++ "+00:00"

/-! ## Fixed-point numbers

A fixed-point number keeps the number of digits after its point: one and a half with a scale of two
is written `1.50`. -/

/-- The number `mantissa / 10 ^ scale`. -/
structure FixedPoint where
  mantissa : Int
  scale : Nat

namespace FixedPoint

/-- The digits, with exactly `scale` of them after the point and at least one before it. -/
def text (x : FixedPoint) : String :=
  let digits := Text.paddedDigits (x.scale + 1) x.mantissa.natAbs
  let whole := digits.length - x.scale
  let fraction := if x.scale = 0 then [] else '.' :: digits.drop whole
  (if x.mantissa < 0 then "-" else "") ++ String.ofList (digits.take whole ++ fraction)

end FixedPoint

/-! ## Identifiers of 128 bits

An identifier is written as thirty-two lower-case hexadecimal digits in groups of eight, four, four,
four and twelve. -/

/-- A number of 128 bits that identifies something. -/
structure Identifier where
  bits : BitVec 128

namespace Identifier

def groups : List Nat := [8, 4, 4, 4, 12]

def pieces {α : Type} : List Nat → List α → List (List α)
  | [], _ => []
  | n :: lengths, xs => xs.take n :: pieces lengths (xs.drop n)

/-- The groups of digits with hyphens between them. -/
def text (x : Identifier) : String :=
  "-".intercalate ((pieces groups (Text.hexDigits 32 x.bits.toNat)).map String.ofList)

end Identifier

/-! ## Conversion -/

/-- Types whose members can be used as values. -/
class ToValue (α : Type) where
  toValue : α → Value

export ToValue (toValue)

instance : ToValue Value := ⟨id⟩
instance : ToValue Unit := ⟨fun _ ↦ .null⟩
instance : ToValue Bool := ⟨.bool⟩
instance : ToValue Int32 := ⟨.int32⟩
instance : ToValue Int64 := ⟨.int64⟩
instance : ToValue Binary32 := ⟨.float32⟩
instance : ToValue Binary64 := ⟨.float64⟩
instance : ToValue String := ⟨.text⟩
instance : ToValue (List UInt8) := ⟨.bytes⟩
instance : ToValue Json := ⟨.json⟩
instance : ToValue Identifier := ⟨fun x ↦ .text x.text⟩
instance : ToValue Date := ⟨fun d ↦ .text d.text⟩
instance : ToValue DateTime := ⟨fun d ↦ .text d.text⟩
instance : ToValue UtcDateTime := ⟨fun d ↦ .text d.text⟩
instance : ToValue FixedPoint := ⟨fun x ↦ .text x.text⟩

instance {α : Type} [ToValue α] : ToValue (List α) :=
  ⟨fun xs ↦ .array (xs.map toValue)⟩

instance {α : Type} [ToValue α] : ToValue (Option α) :=
  ⟨fun x ↦ x.elim .null toValue⟩

end ScopedSelect
