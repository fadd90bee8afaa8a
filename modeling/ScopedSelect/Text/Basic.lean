/-!
# Digits, and what stands around a text

A number is read from its decimal digits alone: signs, points and exponents are for the caller.
Fields of dates and fixed-point numbers have a least width, filled with zeros from the left.  Byte
strings are written with two upper-case hexadecimal digits a byte, identifiers and escaped control
characters with lower-case ones.

Keywords are read with the blanks around them removed.  Blank is the `White_Space` property of the
character standard: twenty-five code points, six of them within ASCII.  A text literal stands
between single quotes, and a quote inside it is written twice.

A condition that is already one parenthesised group must not be wrapped again, and a group that is
handed to a function loses its own pair.  Both decisions look only at the finished text: `wrapped`
scans it once and keeps the number of groups that are open.
-/

namespace ScopedSelect
namespace Text

def ofDigits (digits : List Char) : Nat :=
  digits.foldl (fun n c ↦ 10 * n + (c.toNat - 48)) 0

/-- The leading decimal digits and what follows them. -/
def spanDigits (cs : List Char) : List Char × List Char :=
  (cs.takeWhile Char.isDigit, cs.dropWhile Char.isDigit)

theorem spanDigits_append (cs : List Char) : (spanDigits cs).1 ++ (spanDigits cs).2 = cs :=
  List.takeWhile_append_dropWhile

/-- The decimal digits of `n`, with zeros in front up to the width. -/
def paddedDigits (width n : Nat) : List Char :=
  let digits := Nat.toDigits 10 n
  List.replicate (width - digits.length) '0' ++ digits

def padded (width n : Nat) : String :=
  String.ofList (paddedDigits width n)

def hexDigit (n : Nat) : Char :=
  if n < 10 then Char.ofNat (48 + n) else Char.ofNat (87 + n)

def hexDigitUpper (n : Nat) : Char :=
  if n < 10 then Char.ofNat (48 + n) else Char.ofNat (55 + n)

def hexValue? (c : Char) : Option Nat :=
  if '0' ≤ c ∧ c ≤ '9' then some (c.toNat - 48)
  else if 'a' ≤ c ∧ c ≤ 'f' then some (c.toNat - 87)
  else if 'A' ≤ c ∧ c ≤ 'F' then some (c.toNat - 55)
  else none

/-- The last `width` lower-case digits of `n`, the most significant first. -/
def hexDigits : (width n : Nat) → List Char
  | 0, _ => []
  | width + 1, n => hexDigits width (n / 16) ++ [hexDigit (n % 16)]

def byteDigits (b : UInt8) : List Char :=
  [hexDigitUpper (b.toNat / 16), hexDigitUpper (b.toNat % 16)]

theorem hexValue?_hexDigit : ∀ n < 16, hexValue? (hexDigit n) = some n := by
  decide

theorem hexValue?_hexDigitUpper : ∀ n < 16, hexValue? (hexDigitUpper n) = some n := by
  decide

@[simp] theorem length_hexDigits (width n : Nat) : (hexDigits width n).length = width := by
  induction width generalizing n with
  | zero => rfl
  | succ width ih => simp [hexDigits, ih]

/-- The inclusive code point ranges of the `White_Space` property, in ascending order. -/
def blankRanges : List (Nat × Nat) :=
  [(0x9, 0xD), (0x20, 0x20), (0x85, 0x85), (0xA0, 0xA0), (0x1680, 0x1680), (0x2000, 0x200A),
    (0x2028, 0x2029), (0x202F, 0x202F), (0x205F, 0x205F), (0x3000, 0x3000)]

def isBlank (c : Char) : Bool :=
  blankRanges.any fun (first, last) ↦ first ≤ c.toNat && c.toNat ≤ last

def trimBlanks (s : String) : String :=
  String.ofList (((s.toList.dropWhile isBlank).reverse.dropWhile isBlank).reverse)

/-- Every single quote written twice. -/
def doubled : List Char → List Char
  | [] => []
  | c :: rest => if c = '\'' then '\'' :: '\'' :: doubled rest else c :: doubled rest

def quoted (s : String) : String :=
  "'" ++ String.ofList (doubled s.toList) ++ "'"

@[simp] theorem toList_quoted (s : String) :
    (quoted s).toList = '\'' :: doubled s.toList ++ ['\''] := by
  simp [quoted]

/-- Read on with `depth` groups open: no group may close completely before the last character, and
all are closed at the end. -/
def closesLast (depth : Nat) : List Char → Bool
  | [] => depth == 0
  | c :: rest =>
    if c = '(' then closesLast (depth + 1) rest
    else if c = ')' then
      if depth - 1 = 0 ∧ rest ≠ [] then false else closesLast (depth - 1) rest
    else closesLast depth rest

def wrapped (cs : List Char) : Bool :=
  cs.head? == some '(' && cs.getLast? == some ')' && closesLast 0 cs

/-- The characters without the enclosing pair, if they are a single group. -/
def unwrap (cs : List Char) : List Char :=
  if wrapped cs then (cs.drop 1).dropLast else cs

def isWrapped (s : String) : Bool :=
  wrapped s.toList

/-- The text without the enclosing pair, if it is a single group. -/
def stripParentheses (s : String) : String :=
  String.ofList (unwrap s.toList)

def parenthesized (s : String) : String :=
  "(" ++ s ++ ")"

@[simp] theorem toList_stripParentheses (s : String) :
    (stripParentheses s).toList = unwrap s.toList := by
  simp [stripParentheses]

@[simp] theorem toList_parenthesized (s : String) :
    (parenthesized s).toList = '(' :: s.toList ++ [')'] := by
  simp [parenthesized]

end Text
end ScopedSelect
