import ScopedSelect.Text.Basic
import ScopedSelect.Tree.Construction
import ScopedSelect.Value.Conversion

/-!
# The short notation for columns and conditions

A text names a column, with its table before the last point if there is one.  A mark at its
beginning makes it something else: `=` a fragment that is taken over as it is, `?` a bound value,
and `#` the position of a selected column.  Which marks are read depends on the place.

The operands of a condition are expressions, queries, or texts that are read as references.  A
condition and a call of a function have one function each.
-/

namespace ScopedSelect
namespace Shorthand

/-- What stands before and after the last point, if there is one. -/
def splitAtLastPoint : List Char → Option (List Char × List Char)
  | [] => none
  | c :: rest =>
    match splitAtLastPoint rest with
    | some (before, behind) => some (c :: before, behind)
    | none => if c = '.' then some ([], rest) else none

/-- The table, if one is written, and the name of a column. -/
def splitQualified (spec : String) : Option String × String :=
  match splitAtLastPoint spec.toList with
  | some (table, name) => (some (String.ofList table), String.ofList name)
  | none => (none, spec)

def afterMark? (mark : Char) (spec : String) : Option String :=
  match spec.toList with
  | c :: rest => if c = mark then some (String.ofList rest) else none
  | [] => none

def fragment (text : String) : Expr :=
  .fragment ⟨text, none⟩

def bound {α : Type} [ToValue α] (v : α) : Expr :=
  .decorated (.literal (toValue v)) .bind

/-- A column to select: `table.name`, `name` or `=fragment`. -/
def column (spec : String) : Expr :=
  match afterMark? '=' spec with
  | some text => fragment text
  | none =>
    let (table, name) := splitQualified spec
    .columnDef ⟨name, table.map TableRef.mk, none⟩

/-- The use of a column: `table.name`, `name`, `=fragment` or `?value`. -/
def reference (spec : String) : Expr :=
  match afterMark? '=' spec with
  | some text => fragment text
  | none =>
    match afterMark? '?' spec with
    | some text => bound text
    | none =>
      let (table, name) := splitQualified spec
      .columnRef ⟨name, table.map TableRef.mk⟩

/-- The number that decimal digits denote, if there are any and nothing else, and if it fits. -/
def positionOf? (digits : List Char) : Option UInt32 :=
  let n := Text.ofDigits digits
  if digits ≠ [] ∧ digits.all Char.isDigit ∧ n ≤ 0xFFFFFFFF then some (.ofNat n) else none

/-- The digits of a number that may have a plus sign. -/
def withoutPlus : List Char → List Char
  | '+' :: digits => digits
  | digits => digits

/-- What to group or sort by: a reference, or `#` with the number of a selected column. -/
def target (spec : String) : Except Error Expr :=
  match afterMark? '#' spec with
  | none => .ok (reference spec)
  | some number =>
    match positionOf? (withoutPlus number.toList) with
    | some n => .ok (.position ⟨n, none⟩)
    | none => .error (.invalidArgument (.notAPosition spec))

def aliased (e : Expr) (label : String) : Except Error Expr :=
  (e.setAlias (some label)).mapError Error.ofRenderError

end Shorthand

class ToOperand (α : Type) where
  toOperand : α → Expr

export ToOperand (toOperand)

instance : ToOperand Expr := ⟨id⟩
instance : ToOperand String := ⟨Shorthand.reference⟩
instance : ToOperand Condition := ⟨.condition⟩
instance : ToOperand Query := ⟨.subquery⟩

namespace Shorthand

def combined (c : Combinator) (operands : List Expr) : Expr :=
  .condition (.combining c operands)

/-- All of the conditions hold. -/
def allOf (conditions : List Expr) : Expr :=
  combined .conjunction conditions

def anyOf (conditions : List Expr) : Expr :=
  combined .disjunction conditions

def tuple (operands : List Expr) : Expr :=
  combined .pair operands

section Comparison

variable {α β : Type} [ToOperand α] [ToOperand β]

def compared (op : Operator) (left : α) (right : β) : Expr :=
  combined (.infixed op) [toOperand left, toOperand right]

def equal (left : α) (right : β) : Expr := compared .equal left right
def notEqual (left : α) (right : β) : Expr := compared .notEqual left right
def less (left : α) (right : β) : Expr := compared .less left right
def greater (left : α) (right : β) : Expr := compared .greater left right
def lessEqual (left : α) (right : β) : Expr := compared .lessEqual left right
def greaterEqual (left : α) (right : β) : Expr := compared .greaterEqual left right
def like (left : α) (right : β) : Expr := compared .like left right

def member (left : α) (right : β) : Expr := compared .member left right

def fullText (columns : α) (against : β) : Expr :=
  combined .fullText [toOperand columns, toOperand against]

def isNull (operand : α) : Expr :=
  combined .isNull [toOperand operand, .nothing]

def isNotNull (operand : α) : Expr :=
  combined .isNotNull [toOperand operand, .nothing]

end Comparison

def call (f : SqlFunction) (argument : Expr) : Expr :=
  .decorated argument (.function f)

end Shorthand
end ScopedSelect
