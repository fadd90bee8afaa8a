import ScopedSelect.Error
import ScopedSelect.Text.Basic

/-!
# Folding the operands of a condition

An operator is the text between its two operands.  The ten standard ones can be read from a text,
with any blanks around it and in any case; every other text is an operator only if it is asked for
by `Operator.custom`.

A combinator makes one text of what was accumulated and the next operand.  The two null tests read
only what was accumulated: the operand after it is a placeholder.  A combinator or a map that the
caller supplies is known by its name, and two of one name count as equal.

The texts of the operands are mapped one by one and folded from left to right, starting from a seed
if there is one.  What comes out is parenthesised unless it is empty, so that a condition inside
another keeps its grouping.
-/

namespace ScopedSelect

structure Operator where
  text : String
  deriving DecidableEq

namespace Operator

def conjunction : Operator := ⟨"AND"⟩
def disjunction : Operator := ⟨"OR"⟩
def equal : Operator := ⟨"="⟩
def notEqual : Operator := ⟨"<>"⟩
def less : Operator := ⟨"<"⟩
def greater : Operator := ⟨">"⟩
def lessEqual : Operator := ⟨"<="⟩
def greaterEqual : Operator := ⟨">="⟩
def like : Operator := ⟨"LIKE"⟩
def member : Operator := ⟨"IN"⟩

def standard : List Operator :=
  [conjunction, disjunction, equal, notEqual, less, greater, lessEqual, greaterEqual, like, member]

def custom (text : String) : Operator := ⟨text⟩

/-- The standard operator with this text; `!=` is another spelling of `<>`. -/
def ofText? (text : String) : Option Operator :=
  if text = "!=" then some notEqual else standard.find? (·.text == text)

def parse (text : String) : Except Error Operator :=
  match ofText? ((Text.trimBlanks text).map Char.toUpper) with
  | some op => .ok op
  | none => .error (.invalidArgument (.unknownOperator text))

def apply (op : Operator) (left right : String) : String :=
  left ++ " " ++ op.text ++ " " ++ right

instance : ToString Operator := ⟨text⟩

end Operator

/-- How what was accumulated and the next operand become one text. -/
inductive Combinator where
  | infixed (op : Operator)
  | isNull
  | isNotNull
  | pair
  /-- Search the first as columns for the second. -/
  | fullText
  /-- Apply a function of the caller. -/
  | custom (name : String) (apply : String → String → String)

namespace Combinator

def conjunction : Combinator := .infixed .conjunction
def disjunction : Combinator := .infixed .disjunction

def reduce (c : Combinator) (accumulated next : String) : String :=
  match c with
  | .infixed op => op.apply accumulated next
  | .isNull => accumulated ++ " IS NULL"
  | .isNotNull => accumulated ++ " IS NOT NULL"
  | .pair => accumulated ++ "," ++ next
  | .fullText =>
    "MATCH(" ++ Text.stripParentheses accumulated ++ ") AGAINST ("
      ++ Text.stripParentheses next ++ " IN BOOLEAN MODE)"
  | .custom _ apply => apply accumulated next

def name : Combinator → String
  | .infixed op => op.text
  | .isNull => "IS NULL"
  | .isNotNull => "IS NOT NULL"
  | .pair => ","
  | .fullText => "MATCH"
  | .custom name _ => name

/-- Equality of combinators; those of the caller are compared by name. -/
def beq : Combinator → Combinator → Bool
  | .infixed a, .infixed b => a == b
  | .isNull, .isNull => true
  | .isNotNull, .isNotNull => true
  | .pair, .pair => true
  | .fullText, .fullText => true
  | .custom a _, .custom b _ => a == b
  | _, _ => false

instance : BEq Combinator := ⟨beq⟩

instance : ToString Combinator := ⟨fun c ↦ "Combinator" ++ Text.parenthesized c.name⟩

end Combinator

/-- A function of the caller on the text of one operand. -/
structure TextMap where
  name : String
  apply : String → String

namespace TextMap

instance : BEq TextMap := ⟨fun f g ↦ f.name == g.name⟩

instance : ToString TextMap := ⟨fun f ↦ "MapFn" ++ Text.parenthesized f.name⟩

end TextMap

/-- How the texts of the operands become the text of the condition. -/
structure Folding where
  map? : Option TextMap
  combinator? : Option Combinator
  seed? : Option String

namespace Folding

def combining (c : Combinator) : Folding := ⟨none, some c, none⟩

def plain : Folding := ⟨none, none, none⟩

def mapped (f : Folding) (text : String) : String :=
  match f.map? with
  | some map => map.apply text
  | none => text

/-- What was accumulated and the next operand; without a combinator one follows the other. -/
def step (f : Folding) : Option String → String → String
  | none, next => next
  | some accumulated, next =>
    match f.combinator? with
    | some c => c.reduce accumulated next
    | none => accumulated ++ next

/-- What is accumulated after all operands, if anything was ever there. -/
def accumulate (f : Folding) (texts : List String) : Option String :=
  texts.foldl (fun acc text ↦ some (f.step acc (f.mapped text))) f.seed?

def enclose : Option String → String
  | none => ""
  | some s => if s = "" then "" else Text.parenthesized s

def text (f : Folding) (texts : List String) : String :=
  enclose (f.accumulate texts)

def beq (f g : Folding) : Bool :=
  f.map? == g.map? && f.combinator? == g.combinator? && f.seed? == g.seed?

instance : BEq Folding := ⟨beq⟩

theorem enclose_of_ne {s : String} (h : s ≠ "") : enclose (some s) = Text.parenthesized s :=
  if_neg h

end Folding
end ScopedSelect
