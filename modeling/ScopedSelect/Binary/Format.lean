/-!
# Binary floating point numbers

A binary number is a pattern of bits.  A `Format` says how wide its fields are, and `Format.decode`
what a pattern denotes: no number, an infinity, or a sign with `significand * 2 ^ exponent`.
Numbers are kept as bits, so that every function on them is a function on natural numbers.

A quotient of natural numbers is rounded to the nearest number of a format, a tie going to the even
significand.  Decimal numbers, whole numbers and numbers of a wider format are all read this way,
each in one rounding.
-/

namespace ScopedSelect
namespace Binary

/-- The widths of an interchange format; the precision counts the hidden bit. -/
structure Format where
  precision : Nat
  exponentWidth : Nat

/-- A magnitude `significand * 2 ^ exponent`. -/
structure Magnitude where
  significand : Nat
  exponent : Int
  /-- The gap to the magnitude below is half the gap to the magnitude above. -/
  narrowBelow : Bool

inductive Denotation where
  | notANumber
  | infinite (negative : Bool)
  | finite (negative : Bool) (magnitude : Magnitude)

namespace Format

variable (f : Format)

def fractionWidth : Nat :=
  f.precision - 1

/-- The exponent of the least magnitude above zero. -/
def leastExponent : Int :=
  3 - Nat.pow 2 (f.exponentWidth - 1) - f.precision

def infinityBits : Nat :=
  (Nat.pow 2 f.exponentWidth - 1) * Nat.pow 2 f.fractionWidth

def signBit : Nat :=
  Nat.pow 2 (f.exponentWidth + f.fractionWidth)

def magnitudeBits (bits : Nat) : Nat :=
  bits % f.signBit

def isNegative (bits : Nat) : Bool :=
  bits / f.signBit % 2 == 1

def isNaN (bits : Nat) : Bool :=
  f.infinityBits < f.magnitudeBits bits

/-- Equality of numbers: no pattern without a value equals anything, and both zeros are equal. -/
def numEq (a b : Nat) : Bool :=
  !f.isNaN a && !f.isNaN b
    && (a == b || (f.magnitudeBits a == 0 && f.magnitudeBits b == 0))

def decode (bits : Nat) : Denotation :=
  let negative := f.isNegative bits
  let magnitude := f.magnitudeBits bits
  let biased := magnitude / Nat.pow 2 f.fractionWidth
  let fraction := magnitude % Nat.pow 2 f.fractionWidth
  if f.isNaN bits then .notANumber
  else if magnitude = f.infinityBits then .infinite negative
  else if biased = 0 then .finite negative ⟨fraction, f.leastExponent, false⟩
  else .finite negative
    ⟨Nat.pow 2 f.fractionWidth + fraction, f.leastExponent + biased - 1,
      fraction == 0 && 1 < biased⟩

theorem numEq_self (bits : Nat) : f.numEq bits bits = !f.isNaN bits := by
  simp [numEq]

end Format

def single : Format := ⟨24, 8⟩

def double : Format := ⟨53, 11⟩

end Binary

structure Binary32 where
  bits : UInt32
  deriving DecidableEq, Inhabited

structure Binary64 where
  bits : UInt64
  deriving DecidableEq, Inhabited

namespace Binary32

def numEq (x y : Binary32) : Bool :=
  Binary.single.numEq x.bits.toNat y.bits.toNat

def isNaN (x : Binary32) : Bool :=
  Binary.single.isNaN x.bits.toNat

def decode (x : Binary32) : Binary.Denotation :=
  Binary.single.decode x.bits.toNat

end Binary32

namespace Binary64

def numEq (x y : Binary64) : Bool :=
  Binary.double.numEq x.bits.toNat y.bits.toNat

def isNaN (x : Binary64) : Bool :=
  Binary.double.isNaN x.bits.toNat

def decode (x : Binary64) : Binary.Denotation :=
  Binary.double.decode x.bits.toNat

end Binary64

namespace Binary

/-- The quotient rounded to the nearest natural number, a half to the even neighbour. -/
def roundQuotient (num den : Nat) : Nat :=
  let quotient := num / den
  let twice := 2 * (num % den)
  if twice < den then quotient
  else if den < twice then quotient + 1
  else if quotient % 2 = 0 then quotient else quotient + 1

/-- The greatest `e` with `2 ^ e ≤ num / den`, for a positive quotient. -/
def floorLog2 (num den : Nat) : Int :=
  let estimate : Int := Nat.log2 num - Nat.log2 den
  if den * Nat.pow 2 estimate.toNat ≤ num * Nat.pow 2 (-estimate).toNat then estimate
  else estimate - 1

namespace Format

variable (f : Format)

/-- The pattern of the magnitude nearest to `num / den`; it reaches `infinityBits` if the quotient
is too large. -/
def nearest (num den : Nat) : Nat :=
  if num = 0 then 0
  else
    let exponent := max (floorLog2 num den - f.fractionWidth) f.leastExponent
    let significand :=
      roundQuotient (num * Nat.pow 2 (-exponent).toNat) (den * Nat.pow 2 exponent.toNat)
    let hidden := Nat.pow 2 f.fractionWidth
    if significand < hidden then significand
    else (exponent - f.leastExponent + 1).toNat * hidden + (significand - hidden)

def withSign (negative : Bool) (magnitude : Nat) : Nat :=
  if negative then f.signBit + magnitude else magnitude

/-- The pattern nearest to `± significand * 2 ^ exponent`, infinite if that is too large. -/
def ofMagnitude (negative : Bool) (x : Magnitude) : Nat :=
  f.withSign negative <| min f.infinityBits <|
    f.nearest (x.significand * Nat.pow 2 x.exponent.toNat) (Nat.pow 2 (-x.exponent).toNat)

end Format
end Binary

namespace Binary32

def ofInt (n : Int) : Binary32 :=
  ⟨.ofNat (Binary.single.ofMagnitude (n < 0) ⟨n.natAbs, 0, false⟩)⟩

/-- The number nearest to a wider number; one that is too large becomes infinite. -/
def ofBinary64 (x : Binary64) : Binary32 :=
  match x.decode with
  | .notANumber => ⟨.ofNat (Binary.single.infinityBits + 1)⟩
  | .infinite negative =>
    ⟨.ofNat (Binary.single.withSign negative Binary.single.infinityBits)⟩
  | .finite negative magnitude => ⟨.ofNat (Binary.single.ofMagnitude negative magnitude)⟩

end Binary32

namespace Binary64

def ofInt (n : Int) : Binary64 :=
  ⟨.ofNat (Binary.double.ofMagnitude (n < 0) ⟨n.natAbs, 0, false⟩)⟩

/-- The number nearest to `± digits * 10 ^ exponent`, or nothing if that is too large.  Exponents
far outside the range of the format are settled by the number of digits alone. -/
def ofDecimal? (negative : Bool) (digits : Nat) (exponent : Int) : Option Binary64 :=
  let sign := Binary.double.withSign negative
  let leading := (Nat.toDigits 10 digits).length + exponent
  if digits = 0 ∨ leading < -400 then some ⟨.ofNat (sign 0)⟩
  else if 400 < leading then none
  else
    let bits :=
      Binary.double.nearest (digits * Nat.pow 10 exponent.toNat) (Nat.pow 10 (-exponent).toNat)
    if bits < Binary.double.infinityBits then some ⟨.ofNat (sign bits)⟩ else none

end Binary64
end ScopedSelect
