import ScopedSelect.Binary.Format

/-!
# The decimal notation of a binary number

The real numbers that round to a binary number form an interval around it, whose ends belong to it
exactly if the significand is even.  `shortest` walks from coarse decimal grids to fine ones and
takes the first grid on which one of the two neighbours of the number lies in the interval.  Of two
such neighbours it takes the nearer; what happens in an exact tie is for the caller to say.

A `Layout` holds the decisions of one output format: up to which exponents digits are written
positionally, whether a whole number keeps a fraction, what stands for a tie, an infinity and a
pattern that is no number.  `Layout.render` applies them to the fewest digits that identify the
number.
-/

namespace ScopedSelect
namespace Decimal

/-- The number `digits * 10 ^ exponent`. -/
structure Scaled where
  digits : Nat
  exponent : Int
  deriving DecidableEq

/-- Which of two equally near candidates is taken. -/
inductive Tie where
  | toEven
  | up

namespace Shortest

/-- The lower end, the middle and the upper end of the interval, in quarters of `2 ^ exponent`. -/
def ends (x : Binary.Magnitude) : Nat × Nat × Nat :=
  (4 * x.significand - if x.narrowBelow then 1 else 2, 4 * x.significand, 4 * x.significand + 2)

/-- The candidate on the grid `10 ^ power`, if a neighbour of the number on it lies in the
interval. -/
def onGrid? (tie : Tie) (x : Binary.Magnitude) (power : Int) : Option Nat :=
  let (low, middle, high) := ends x
  let unit := Nat.pow 2 (x.exponent - 2).toNat * Nat.pow 10 (-power).toNat
  let grid := Nat.pow 10 power.toNat * Nat.pow 2 (2 - x.exponent).toNat
  let closed := x.significand % 2 == 0
  let inside (candidate : Nat) : Bool :=
    (low * unit < candidate * grid || (closed && low * unit == candidate * grid))
      && (candidate * grid < high * unit || (closed && candidate * grid == high * unit))
  let below := middle * unit / grid
  match inside below, inside (below + 1) with
  | false, false => none
  | true, false => some below
  | false, true => some (below + 1)
  | true, true =>
    match compare (2 * (middle * unit)) ((2 * below + 1) * grid), tie with
    | .lt, _ => some below
    | .gt, _ => some (below + 1)
    | .eq, .up => some (below + 1)
    | .eq, .toEven => some (if below % 2 = 0 then below else below + 1)

/-- Try the grids `10 ^ power`, `10 ^ (power - 1)`, and so on, at most `steps` of them. -/
def search (tie : Tie) (x : Binary.Magnitude) : (steps : Nat) → (power : Int) → Option Scaled
  | 0, _ => none
  | steps + 1, power =>
    match onGrid? tie x power with
    | some digits => some ⟨digits, power⟩
    | none => search tie x steps (power - 1)

def coarsest (x : Binary.Magnitude) : Int :=
  Int.fdiv ((Nat.log2 x.significand + 2 + x.exponent) * 30103) 100000 + 2

def exact (x : Binary.Magnitude) : Scaled :=
  if 0 ≤ x.exponent then ⟨x.significand * Nat.pow 2 x.exponent.toNat, 0⟩
  else ⟨x.significand * Nat.pow 5 (-x.exponent).toNat, x.exponent⟩

end Shortest

/-- The decimal number with the fewest digits that identifies `x`, and the nearest to `x` of those.
Seventeen digits identify every number of both formats, so the search ends within its steps. -/
def shortest (tie : Tie) (x : Binary.Magnitude) : Scaled :=
  if x.significand = 0 then ⟨0, 0⟩
  else (Shortest.search tie x 24 (Shortest.coarsest x)).getD (Shortest.exact x)

/-- How numbers of one output format are written. -/
structure Layout where
  /-- Exponents of the leading digit that are written positionally; all of them if absent. -/
  positional : Option (Int × Int)
  /-- Whether a whole number is written with a fraction of zero. -/
  pointZero : Bool
  tie : Tie
  notANumber : String
  infinity : String
  negativeInfinity : String

namespace Layout

variable (style : Layout)

def isPositional (leading : Int) : Bool :=
  match style.positional with
  | none => true
  | some (least, greatest) => least ≤ leading && leading ≤ greatest

def plain (digits : List Char) (exponent : Int) : List Char :=
  let whole := digits.length + exponent
  if 0 ≤ exponent then
    digits ++ List.replicate exponent.toNat '0' ++ if style.pointZero then ['.', '0'] else []
  else if 0 < whole then digits.take whole.toNat ++ '.' :: digits.drop whole.toNat
  else '0' :: '.' :: (List.replicate (-whole).toNat '0' ++ digits)

/-- The digits written with one digit before the point and a signed exponent. -/
def scientific (digits : List Char) (leading : Int) : List Char :=
  let fraction := if digits.length ≤ 1 then [] else '.' :: digits.drop 1
  digits.take 1 ++ fraction ++ 'e' :: (if leading < 0 then '-' else '+')
    :: Nat.toDigits 10 leading.natAbs

/-- A scaled number in the form that its exponent asks for. -/
def scaled (x : Scaled) : List Char :=
  let digits := Nat.toDigits 10 x.digits
  let leading := digits.length - 1 + x.exponent
  if style.isPositional leading then style.plain digits x.exponent
  else scientific digits leading

def render : Binary.Denotation → String
  | .notANumber => style.notANumber
  | .infinite negative => if negative then style.negativeInfinity else style.infinity
  | .finite negative x =>
    let text := String.ofList (style.scaled (shortest style.tie x))
    if negative then "-" ++ text else text

end Layout
end Decimal
end ScopedSelect
