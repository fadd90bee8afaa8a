import ScopedSelect.Clause.Basic

/-!
# Errors

An argument is refused when a query is put together (`ArgumentError`), and a check fails when it is
rendered (`RenderError`).  Whoever renders a whole query sees an `Error`: it keeps a refused
argument as it is and reports any other failure by its message.
-/

namespace ScopedSelect

inductive ArgumentError where
  | unknownOperator (text : String)
  | uncombinedOperands (count : Nat)
  | uncombinedOperand
  | notInClause (kind : ExprKind) (clause : Clause)
  | noEntityAt (index : Nat) (clause : Clause) (size : Nat)
  | notAPosition (spec : String)
  | noAlias (kind : ExprKind)
  | other (message : String)
  deriving DecidableEq

def ArgumentError.message : ArgumentError → String
  | .unknownOperator text =>
    "unknown operator '" ++ text ++ "', use Operator::custom for database-specific operators"
  | .uncombinedOperands count =>
    "a condition with " ++ toString count ++ " operands needs a reduce combinator"
  | .uncombinedOperand => "a condition with several operands needs a reduce combinator"
  | .notInClause kind clause =>
    kind.description ++ " cannot be used in a " ++ clause.name ++ " clause"
  | .noEntityAt index clause size =>
    "entity index " ++ toString index ++ " out of range for a " ++ clause.name
      ++ " statement of " ++ toString size ++ " entities"
  | .notAPosition spec => "invalid column position '" ++ spec ++ "'"
  | .noAlias kind => kind.description ++ " cannot carry an alias"
  | .other message => message

/-- Why an expression, an entity or a clause does not render. -/
inductive RenderError where
  | ambiguousDefinition (name : String) (count : Nat)
  | ambiguousReference (name : String) (count : Nat)
  | unresolvedTable (column table : String)
  | notImplemented (what : String)
  | keyNotFound (key : String)
  | invalidArgument (cause : ArgumentError)
  deriving DecidableEq

def RenderError.message : RenderError → String
  | .ambiguousDefinition name count =>
    "`" ++ name ++ "' definition is ambiguous: domain has " ++ toString count
      ++ " definitions with that name"
  | .ambiguousReference name count =>
    "`" ++ name ++ "' reference is ambiguous: domain has " ++ toString count
      ++ " definitions with that name or alias"
  | .unresolvedTable column table =>
    "column `" ++ column ++ "': table reference `" ++ table ++ "' is not defined in the domain"
  | .notImplemented what => what ++ " is not implemented"
  | .keyNotFound key => "domain key `" ++ key ++ "' not found"
  | .invalidArgument cause => "invalid argument: " ++ cause.message

/-- What whoever builds or renders a query sees. -/
inductive Error where
  | render (message : String)
  | invalidArgument (cause : ArgumentError)
  deriving DecidableEq

namespace Error

def message : Error → String
  | .render message => "Query::render() error : " ++ message
  | .invalidArgument cause => "Invalid argument: " ++ cause.message

/-- A failed check as it leaves the query. -/
def ofRenderError : RenderError → Error
  | .invalidArgument cause => .invalidArgument cause
  | e => .render e.message

end Error
end ScopedSelect
