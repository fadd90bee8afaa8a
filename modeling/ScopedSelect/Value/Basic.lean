import ScopedSelect.Json.Basic
import ScopedSelect.Text.Basic

/-!
# Values

A value is what a query carries beside its text: it is either bound to a placeholder or written
into the text as a literal.  Values compare as their contents do, so one that holds a binary number
without a value differs from itself.

As literals, texts and documents are quoted, bytes are written in hexadecimal, and the items of an
array stand side by side.  No character of a text can end its literal: a quote inside it is written
twice.
-/

namespace ScopedSelect

/-- What stands in the text for a bound value. -/
def placeholder : String := "?"

/-- A value that can be bound to a placeholder. -/
inductive Value where
  | null
  | bool (b : Bool)
  | int32 (n : Int32)
  | int64 (n : Int64)
  | float32 (x : Binary32)
  | float64 (x : Binary64)
  | text (s : String)
  | bytes (bs : List UInt8)
  | json (document : Json)
  | array (items : List Value)
  deriving Inhabited

namespace Value

def isNull : Value → Bool
  | .null => true
  | _ => false

def typeName : Value → String
  | .null => "NULL"
  | .bool _ => "BOOLEAN"
  | .int32 _ => "INTEGER"
  | .int64 _ => "BIGINT"
  | .float32 _ => "REAL"
  | .float64 _ => "DOUBLE PRECISION"
  | .text _ => "TEXT"
  | .bytes _ => "BYTEA"
  | .json _ => "JSON"
  | .array _ => "ARRAY"

def items? : Value → Option (List Value)
  | .array items => some items
  | _ => none

mutual

def beq : Value → Value → Bool
  | .null, .null => true
  | .bool a, .bool b => a == b
  | .int32 m, .int32 n => m == n
  | .int64 m, .int64 n => m == n
  | .float32 x, .float32 y => x.numEq y
  | .float64 x, .float64 y => x.numEq y
  | .text s, .text t => s == t
  | .bytes as, .bytes bs => as == bs
  | .json d, .json e => d == e
  | .array xs, .array ys => itemsBeq xs ys
  | _, _ => false

def itemsBeq : List Value → List Value → Bool
  | [], [] => true
  | x :: xs, y :: ys => beq x y && itemsBeq xs ys
  | _, _ => false

end

instance : BEq Value := ⟨beq⟩

/-- Binary numbers are always positional, a whole number has no fraction, and a tie goes up. -/
def floatLayout : Decimal.Layout where
  positional := none
  pointZero := false
  tie := .up
  notANumber := "NaN"
  infinity := "inf"
  negativeInfinity := "-inf"

mutual

def literal : Value → String
  | .null => "NULL"
  | .bool true => "TRUE"
  | .bool false => "FALSE"
  | .int32 n => toString n.toInt
  | .int64 n => toString n.toInt
  | .float32 x => floatLayout.render x.decode
  | .float64 x => floatLayout.render x.decode
  | .text s => Text.quoted s
  | .bytes bs => "X'" ++ String.ofList (bs.flatMap Text.byteDigits) ++ "'"
  | .json document => Text.quoted document.print
  | .array items => ",".intercalate (literals items)

def literals : List Value → List String
  | [] => []
  | item :: rest => literal item :: literals rest

end

end Value
end ScopedSelect
