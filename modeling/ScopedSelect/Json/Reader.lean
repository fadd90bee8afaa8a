import ScopedSelect.Binary.Format
import ScopedSelect.Json.Basic
import ScopedSelect.Text.Basic

/-!
# Reading JSON text

A reader takes characters and returns what it read with the characters that are left.
`readDocument` keeps the members of an object as they are written; `parse?` reads a whole text into
canonical form.  At most `deepest` arrays and objects may stand inside each other: the recursion
runs on what is left of that budget.
-/

namespace ScopedSelect
namespace Json

/-- The number of containers that may stand inside each other. -/
def deepest : Nat := 127

def isSpace (c : Char) : Bool :=
  c == ' ' || c == '\n' || c == '\r' || c == '\t'

def skipSpaces (cs : List Char) : List Char :=
  cs.dropWhile isSpace

def skipWord (word cs : List Char) : Option (List Char) :=
  if word.isPrefixOf cs then some (cs.drop word.length) else none

/-! ## Numbers -/

/-- The digits after a point, which must have at least one; none if there is no point. -/
def readFraction : List Char → Option (List Char × List Char)
  | '.' :: cs =>
    match Text.spanDigits cs with
    | ([], _) => none
    | digits => some digits
  | cs => some ([], cs)

/-- The value of a written exponent, which must have a digit; nothing read if there is none. -/
def readExponent : List Char → Option (Option Int × List Char)
  | c :: cs =>
    if c = 'e' ∨ c = 'E' then
      let (negative, cs) :=
        match cs with
        | '-' :: rest => (true, rest)
        | '+' :: rest => (false, rest)
        | rest => (false, rest)
      match Text.spanDigits cs with
      | ([], _) => none
      | (digits, rest) =>
        some (some (if negative then -Text.ofDigits digits else Text.ofDigits digits), rest)
    else some (none, c :: cs)
  | [] => some (none, [])

/-- The number with these parts: whole if it is written without fraction and exponent, is not a
negative zero and fits, and the nearest binary number otherwise. -/
def numberOf? (negative : Bool) (whole fraction : List Char) (exponent : Option Int) :
    Option JsonNumber :=
  let n := Text.ofDigits whole
  let fits := if negative then 0 < n && n ≤ 0x8000000000000000 else n ≤ 0xFFFFFFFFFFFFFFFF
  if fraction.isEmpty && exponent.isNone && fits then
    some (.whole (if negative then -n else n))
  else
    (Binary64.ofDecimal? negative (Text.ofDigits (whole ++ fraction))
      (exponent.getD 0 - fraction.length)).map .binary

/-- A number.  The first digit of several is not zero. -/
def readNumber (cs : List Char) : Option (JsonNumber × List Char) :=
  let (negative, cs) :=
    match cs with
    | '-' :: rest => (true, rest)
    | rest => (false, rest)
  match Text.spanDigits cs with
  | ([], _) => none
  | ('0' :: _ :: _, _) => none
  | (whole, cs) => do
    let (fraction, cs) ← readFraction cs
    let (exponent, cs) ← readExponent cs
    let number ← numberOf? negative whole fraction exponent
    return (number, cs)

/-! ## Strings -/

def readUnit : List Char → Option (Nat × List Char)
  | a :: b :: c :: d :: rest => do
    let a ← Text.hexValue? a
    let b ← Text.hexValue? b
    let c ← Text.hexValue? c
    let d ← Text.hexValue? d
    return (4096 * a + 256 * b + 16 * c + d, rest)
  | _ => none

/-- The character of a numeric escape.  A unit of the upper surrogate half must be followed by the
escape of one of the lower half; alone, neither half is a character. -/
def readNumericEscape (cs : List Char) : Option (Char × List Char) := do
  let (unit, rest) ← readUnit cs
  if unit < 0xD800 ∨ 0xDFFF < unit then return (Char.ofNat unit, rest)
  else if 0xDC00 ≤ unit then none
  else
    match rest with
    | '\\' :: 'u' :: rest =>
      let (low, rest) ← readUnit rest
      if 0xDC00 ≤ low ∧ low ≤ 0xDFFF then
        return (Char.ofNat (0x10000 + 1024 * (unit - 0xD800) + (low - 0xDC00)), rest)
      else none
    | _ => none

/-- The character that stands for itself or for a control character after a backslash. -/
def simpleEscape? (c : Char) : Option Char :=
  match c with
  | '"' => some '"'
  | '\\' => some '\\'
  | '/' => some '/'
  | 'b' => some '\x08'
  | 'f' => some '\x0c'
  | 'n' => some '\n'
  | 'r' => some '\r'
  | 't' => some '\t'
  | _ => none

/-- The characters of a string up to its closing quote, in at most `steps` characters. -/
def readCharacters : (steps : Nat) → List Char → Option (List Char × List Char)
  | 0, _ => none
  | _ + 1, [] => none
  | _ + 1, '"' :: rest => some ([], rest)
  | steps + 1, '\\' :: 'u' :: rest => do
    let (c, rest) ← readNumericEscape rest
    let (cs, rest) ← readCharacters steps rest
    return (c :: cs, rest)
  | steps + 1, '\\' :: e :: rest => do
    let c ← simpleEscape? e
    let (cs, rest) ← readCharacters steps rest
    return (c :: cs, rest)
  | steps + 1, c :: rest =>
    if c = '\\' ∨ c.toNat < 0x20 then none
    else do
      let (cs, rest) ← readCharacters steps rest
      return (c :: cs, rest)

def readString : List Char → Option (String × List Char)
  | '"' :: rest => do
    let (cs, rest) ← readCharacters (rest.length + 1) rest
    return (String.ofList cs, rest)
  | _ => none

/-! ## Containers -/

/-- Elements separated by commas up to the closing character, each read by `element`, in at most
`steps` elements. -/
def readElements {α : Type} (element : List Char → Option (α × List Char)) (close : Char) :
    (steps : Nat) → List Char → Option (List α × List Char)
  | 0, _ => none
  | steps + 1, cs => do
    let (x, rest) ← element (skipSpaces cs)
    match skipSpaces rest with
    | c :: rest =>
      if c = close then return ([x], rest)
      else if c = ',' then
        let (xs, rest) ← readElements element close steps rest
        return (x :: xs, rest)
      else none
    | [] => none

/-- The elements of a container after its opening character, which may be none. -/
def readContents {α : Type} (element : List Char → Option (α × List Char)) (close : Char)
    (cs : List Char) : Option (List α × List Char) :=
  match skipSpaces cs with
  | [] => none
  | c :: rest =>
    if c = close then some ([], rest)
    else readElements element close cs.length (c :: rest)

def readMember (value : List Char → Option (Json × List Char)) (cs : List Char) :
    Option ((String × Json) × List Char) := do
  let (key, rest) ← readString cs
  match skipSpaces rest with
  | ':' :: rest =>
    let (v, rest) ← value (skipSpaces rest)
    return ((key, v), rest)
  | _ => none

/-- A document that starts with the first character and has at most `depth` containers inside each
other. -/
def readDocument : (depth : Nat) → List Char → Option (Json × List Char)
  | depth, cs =>
    match cs with
    | 'n' :: _ => (skipWord ['n', 'u', 'l', 'l'] cs).map (Json.null, ·)
    | 't' :: _ => (skipWord ['t', 'r', 'u', 'e'] cs).map (Json.bool true, ·)
    | 'f' :: _ => (skipWord ['f', 'a', 'l', 's', 'e'] cs).map (Json.bool false, ·)
    | '"' :: _ => (readString cs).map fun (s, rest) ↦ (.string s, rest)
    | '[' :: rest =>
      match depth with
      | 0 => none
      | depth + 1 =>
        (readContents (readDocument depth) ']' rest).map fun (xs, rest) ↦ (.array xs, rest)
    | '\x7b' :: rest =>
      match depth with
      | 0 => none
      | depth + 1 =>
        (readContents (readMember (readDocument depth)) '\x7d' rest).map
          fun (xs, rest) ↦ (.object xs, rest)
    | _ => (readNumber cs).map fun (n, rest) ↦ (.number n, rest)

/-- The document that a text consists of, with the members of its objects as written. -/
def parseWritten? (text : String) : Option Json := do
  let (document, rest) ← readDocument deepest (skipSpaces text.toList)
  if (skipSpaces rest).isEmpty then return document else none

def parse? (text : String) : Option Json :=
  (parseWritten? text).map canonical

end Json
end ScopedSelect
