import ScopedSelect.Tree.Basic

/-!
# What is refused when a tree is put together

A condition of several operands needs a combinator.  `Condition.ofParts` and `Condition.push` refuse
what would leave several operands uncombined; the other constructors cannot.

`Expr.supports` says in which clauses an expression may stand, by its kind alone.  An `Item` of a
clause is an expression that may stand there; queries are put together from items, so that an
expression out of place is refused before it gets into one.
-/

namespace ScopedSelect

namespace Condition

def combining (c : Combinator) (operands : List Expr) : Condition :=
  ⟨operands, .combining c⟩

def single (operand : Expr) : Condition :=
  ⟨[operand], .plain⟩

/-- A condition from its parts; several operands need a combinator. -/
def ofParts (operands : List Expr) (folding : Folding) : Except Error Condition :=
  if folding.combinator?.isNone && 1 < operands.length then
    .error (.invalidArgument (.uncombinedOperands operands.length))
  else .ok ⟨operands, folding⟩

def withMap (c : Condition) (map : TextMap) : Condition :=
  { c with folding := { c.folding with map? := some map } }

def withSeed (c : Condition) (seed : String) : Condition :=
  { c with folding := { c.folding with seed? := some seed } }

/-- The condition with one more operand; without a combinator it must be the first. -/
def push (c : Condition) (operand : Expr) : Except Error Condition :=
  if c.folding.combinator?.isNone && !c.operands.isEmpty then
    .error (.invalidArgument .uncombinedOperand)
  else .ok { c with operands := c.operands ++ [operand] }

end Condition

def Expr.supports (e : Expr) (c : Clause) : Bool :=
  e.kind.clauses.contains c

structure Item (c : Clause) where
  expr : Expr
  supported : expr.supports c = true

namespace Item

/-- Accept an expression as an item of a clause, or say why not. -/
def ofExpr (c : Clause) (e : Expr) : Except Error (Item c) :=
  if h : e.supports c = true then .ok ⟨e, h⟩
  else .error (.invalidArgument (.notInClause e.kind c))

def ofCondition (c : Condition) : Item .filter :=
  ⟨.condition c, rfl⟩

/-- Exactly the expressions that a clause supports are accepted. -/
theorem ofExpr_isOk_iff (c : Clause) (e : Expr) :
    (∃ item, ofExpr c e = .ok item ∧ item.expr = e) ↔ e.supports c = true := by
  unfold ofExpr
  split <;> simp_all

end Item
end ScopedSelect
