import ScopedSelect.Binary.Format
import ScopedSelect.Decimal.Notation
import ScopedSelect.Text.Basic

/-!
# JSON documents

A document keeps the members of an object as a list.  In a *canonical* document the keys of every
object ascend strictly, so two canonical documents are equal exactly if they say the same.
`Json.canonical` brings any document into that form; of several members with one key the last
counts.

Documents are written without blanks.  Only quotes, backslashes and control characters are escaped,
and binary numbers are written with the fewest digits that identify them.
-/

namespace ScopedSelect

/-- A number of a document: whole if it was written as a whole number in the range of the
sixty-four bit integers, and binary otherwise. -/
inductive JsonNumber where
  | whole (n : Int)
  | binary (x : Binary64)

inductive Json where
  | null
  | bool (b : Bool)
  | number (n : JsonNumber)
  | string (s : String)
  | array (items : List Json)
  | object (members : List (String × Json))
  deriving Inhabited

namespace JsonNumber

/-- Equality of numbers; a whole number differs from every binary one. -/
def beq : JsonNumber → JsonNumber → Bool
  | .whole m, .whole n => m == n
  | .binary x, .binary y => x.numEq y
  | _, _ => false

instance : BEq JsonNumber := ⟨beq⟩

end JsonNumber

namespace Json

mutual

def beq : Json → Json → Bool
  | .null, .null => true
  | .bool a, .bool b => a == b
  | .number m, .number n => m == n
  | .string s, .string t => s == t
  | .array xs, .array ys => itemsBeq xs ys
  | .object xs, .object ys => membersBeq xs ys
  | _, _ => false

def itemsBeq : List Json → List Json → Bool
  | [], [] => true
  | x :: xs, y :: ys => beq x y && itemsBeq xs ys
  | _, _ => false

def membersBeq : List (String × Json) → List (String × Json) → Bool
  | [], [] => true
  | (k, x) :: xs, (l, y) :: ys => k == l && beq x y && membersBeq xs ys
  | _, _ => false

end

instance : BEq Json := ⟨beq⟩

/-- Put a member into a list with ascending keys, replacing one with the same key. -/
def insertMember (key : String) (value : Json) : List (String × Json) → List (String × Json)
  | [] => [(key, value)]
  | (k, v) :: rest =>
    if key = k then (key, value) :: rest
    else if key < k then (key, value) :: (k, v) :: rest
    else (k, v) :: insertMember key value rest

/-- The object with these members; of several with one key the last counts. -/
def ofMembers (members : List (String × Json)) : Json :=
  .object (members.foldl (fun kept (key, value) ↦ insertMember key value kept) [])

mutual

/-- The same document with ascending keys in every object. -/
def canonical : Json → Json
  | .array items => .array (canonicalItems items)
  | .object members => ofMembers (canonicalMembers members)
  | .null => .null
  | .bool b => .bool b
  | .number n => .number n
  | .string s => .string s

def canonicalItems : List Json → List Json
  | [] => []
  | item :: rest => canonical item :: canonicalItems rest

/-- Every member's value in canonical form, the members still in the order given. -/
def canonicalMembers : List (String × Json) → List (String × Json)
  | [] => []
  | (key, value) :: rest => (key, canonical value) :: canonicalMembers rest

end

theorem canonicalItems_eq_map (items : List Json) : canonicalItems items = items.map canonical := by
  induction items with
  | nil => rfl
  | cons item rest ih => simp [canonicalItems, ih]

theorem canonicalMembers_eq_map (members : List (String × Json)) :
    canonicalMembers members = members.map fun (key, value) ↦ (key, canonical value) := by
  induction members with
  | nil => rfl
  | cons member rest ih => simp [canonicalMembers, ih]

/-- Numbers of sixty-four bits are positional from `1e-5` up to below `1e16`, keep a fraction, send
a tie to the even digit, and are `null` if they are not finite. -/
def doubleLayout : Decimal.Layout where
  positional := some (-5, 15)
  pointZero := true
  tie := .toEven
  notANumber := "null"
  infinity := "null"
  negativeInfinity := "null"

/-- Numbers of thirty-two bits are positional from `1e-6` up to below `1e13`, and otherwise as
those of sixty-four. -/
def singleLayout : Decimal.Layout :=
  { doubleLayout with positional := some (-6, 12) }

def escape (c : Char) : List Char :=
  match c with
  | '"' => ['\\', '"']
  | '\\' => ['\\', '\\']
  | '\x08' => ['\\', 'b']
  | '\x0c' => ['\\', 'f']
  | '\n' => ['\\', 'n']
  | '\r' => ['\\', 'r']
  | '\t' => ['\\', 't']
  | c => if c.toNat < 0x20 then '\\' :: 'u' :: Text.hexDigits 4 c.toNat else [c]

def printString (s : String) : String :=
  "\"" ++ String.ofList (s.toList.flatMap escape) ++ "\""

def printNumber : JsonNumber → String
  | .whole n => toString n
  | .binary x => doubleLayout.render x.decode

mutual

def print : Json → String
  | .null => "null"
  | .bool true => "true"
  | .bool false => "false"
  | .number n => printNumber n
  | .string s => printString s
  | .array items => "[" ++ ",".intercalate (printItems items) ++ "]"
  | .object members => "\x7b" ++ ",".intercalate (printMembers members) ++ "\x7d"

def printItems : List Json → List String
  | [] => []
  | item :: rest => print item :: printItems rest

def printMembers : List (String × Json) → List String
  | [] => []
  | (key, value) :: rest => (printString key ++ ":" ++ print value) :: printMembers rest

end

theorem printItems_eq_map (items : List Json) : printItems items = items.map print := by
  induction items with
  | nil => rfl
  | cons item rest ih => simp [printItems, ih]

theorem printMembers_eq_map (members : List (String × Json)) :
    printMembers members =
      members.map fun (key, value) ↦ printString key ++ ":" ++ print value := by
  induction members with
  | nil => rfl
  | cons member rest ih => simp [printMembers, ih]

end Json
end ScopedSelect
