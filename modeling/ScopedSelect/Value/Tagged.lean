import ScopedSelect.Json.Basic
import ScopedSelect.Json.Reader
import ScopedSelect.Value.Basic

/-!
# The tagged form of a value

A value is stored as JSON text: an object whose one key names the kind of the value, or the bare
word `"Null"`.  Whole numbers must be written without fraction or exponent and be in range; binary
numbers may be written as whole numbers.  An infinite number is stored as `null`, which is not read
back.
-/

namespace ScopedSelect
namespace Value

/-- An object with one member, from the texts of its parts. -/
def tag (kind payload : String) : String :=
  "\x7b\"" ++ kind ++ "\":" ++ payload ++ "\x7d"

def bracketed (parts : List String) : String :=
  "[" ++ ",".intercalate parts ++ "]"

mutual

/-- The tagged form of a value. -/
def tagged : Value → String
  | .null => "\"Null\""
  | .bool b => tag "Bool" (Json.bool b).print
  | .int32 n => tag "I32" (toString n.toInt)
  | .int64 n => tag "I64" (toString n.toInt)
  | .float32 x => tag "F32" (Json.singleLayout.render x.decode)
  | .float64 x => tag "F64" (Json.doubleLayout.render x.decode)
  | .text s => tag "String" (Json.printString s)
  | .bytes bs => tag "Bytes" (bracketed (bs.map fun b ↦ toString b.toNat))
  | .json document => tag "Json" document.print
  | .array items => tag "Array" (bracketed (taggedItems items))

def taggedItems : List Value → List String
  | [] => []
  | item :: rest => tagged item :: taggedItems rest

end

theorem taggedItems_eq_map (items : List Value) : taggedItems items = items.map tagged := by
  induction items with
  | nil => rfl
  | cons item rest ih => simp [taggedItems, ih]

def wholeIn? (least greatest : Int) : Json → Option Int
  | .number (.whole n) => if least ≤ n ∧ n ≤ greatest then some n else none
  | _ => none

def byteOf? (document : Json) : Option UInt8 :=
  (wholeIn? 0 255 document).map fun n ↦ .ofNat n.toNat

/-- The value of a kind other than an array, from its payload. -/
def ofPayload? (kind : String) (payload : Json) : Option Value :=
  match kind, payload with
  | "Null", .null => some .null
  | "Bool", .bool b => some (.bool b)
  | "I32", n => (wholeIn? (-0x80000000) 0x7FFFFFFF n).map fun n ↦ .int32 (.ofInt n)
  | "I64", n => (wholeIn? (-0x8000000000000000) 0x7FFFFFFFFFFFFFFF n).map fun n ↦ .int64 (.ofInt n)
  | "F32", .number (.whole n) => some (.float32 (.ofInt n))
  | "F32", .number (.binary x) => some (.float32 (.ofBinary64 x))
  | "F64", .number (.whole n) => some (.float64 (.ofInt n))
  | "F64", .number (.binary x) => some (.float64 x)
  | "String", .string s => some (.text s)
  | "Bytes", .array items => (items.mapM byteOf?).map .bytes
  | "Json", document => some (.json document.canonical)
  | _, _ => none

mutual

/-- The value that a document with its members as written is the tagged form of. -/
def ofTagged? : Json → Option Value
  | .string s => if s = "Null" then some .null else none
  | .object [(kind, .array items)] =>
    if kind = "Array" then (ofTaggedItems? items).map .array
    else ofPayload? kind (.array items)
  | .object [(kind, payload)] => ofPayload? kind payload
  | _ => none

def ofTaggedItems? : List Json → Option (List Value)
  | [] => some []
  | item :: rest => do
    let value ← ofTagged? item
    let values ← ofTaggedItems? rest
    return value :: values

end

/-- The value that a text is a tagged form of. -/
def readTagged? (text : String) : Option Value :=
  (Json.parseWritten? text).bind ofTagged?

end Value
end ScopedSelect
