import Reckoner.Catalog.Entry
import Reckoner.Decimal.Layout

/-!
# What can go wrong

Reading an expression fails with a `ParseError`, evaluating one with an
`EvalError`. Both name causes; `message` holds every wording and `label` the
word that stands before it in a report.
-/

namespace Reckoner

/-- Why a token may not stand where it does. -/
inductive Misplacement where
  /-- A blank that is no gap between tokens. -/
  | foreignBlank
  | malformedNumber
  | callMissing (name : String)
  | commaOutsideCall
  | emptyArgument
  | emptyParentheses
  | leftOperandMissing
  deriving DecidableEq, Repr

def Misplacement.detail? : Misplacement → Option String
  | .foreignBlank => none
  | .malformedNumber => some "malformed number"
  | .callMissing name => some ("'" ++ name ++ "' must be followed by '('")
  | .commaOutsideCall => some "argument separator outside a function call"
  | .emptyArgument => some "empty argument"
  | .emptyParentheses => some "empty parentheses"
  | .leftOperandMissing => some "operator is missing its left operand"

/-- Why the pieces of an expression do not join into one. -/
inductive Imbalance where
  | rightOperandMissing (name : String)
  | operandMissing
  | disconnected
  | leftOver (count : Nat)
  deriving DecidableEq, Repr

def Imbalance.detail : Imbalance → String
  | .rightOperandMissing name => "'" ++ name ++ "' is missing its right operand"
  | .operandMissing => "missing operand"
  | .disconnected => "disconnected operands"
  | .leftOver count => toString count ++ " disconnected node(s) left after parsing"

/-- A step of the parser that finds no piece it could work on. None of these
arises from the tokens of a text over a catalog with the six usual operators. -/
inductive Fault where
  | stackExhausted
  | boundaryAsOperand
  | precedenceUnknown (symbol : Option String)
  deriving DecidableEq, Repr

def Fault.detail : Fault → String
  | .stackExhausted => "no pieces left"
  | .boundaryAsOperand => "a boundary stands in the place of an operand"
  | .precedenceUnknown symbol => "no precedence for '" ++ symbol.getD "" ++ "'"

/-- Why a text is not an expression. -/
inductive ParseError where
  | emptyInput
  | inputTooLong (length limit : Nat)
  | expressionTooDeep (depth limit : Nat)
  | unknownFunction (name : String)
  | unclosedParenthesis (position : Nat)
  | unmatchedParenthesis (position : Nat)
  | unexpectedToken (token : String) (position : Nat) (why : Misplacement)
  | unbalanced (why : Imbalance)
  | fault (why : Fault)
  deriving DecidableEq, Repr

def ParseError.label : ParseError → String
  | .emptyInput => "EmptyInputError"
  | .inputTooLong .. => "InputTooLongError"
  | .expressionTooDeep .. => "ExpressionTooDeepError"
  | .unknownFunction _ => "UnknownFunctionError"
  | .unclosedParenthesis _ => "UnbalancedParenthesesError"
  | .unmatchedParenthesis _ => "UnbalancedParenthesesError"
  | .unexpectedToken .. => "UnexpectedTokenError"
  | .unbalanced _ => "UnbalancedExpressionError"
  | .fault _ => "InternalError"

def ParseError.message : ParseError → String
  | .emptyInput => "Expression is empty"
  | .inputTooLong length limit =>
    "Expression has " ++ toString length ++ " characters, limit is " ++ toString limit
  | .expressionTooDeep depth limit =>
    "Expression tree depth " ++ toString depth ++ " exceeds limit " ++ toString limit
  | .unknownFunction name => "Unknown function '" ++ name ++ "'"
  | .unclosedParenthesis position => "unclosed parenthesis at position " ++ toString position
  | .unmatchedParenthesis position =>
    "unmatched closing parenthesis at position " ++ toString position
  | .unexpectedToken token position why =>
    "Unexpected token '" ++ token ++ "' at position " ++ toString position ++
      (match why.detail? with
        | some detail => ": " ++ detail
        | none => "")
  | .unbalanced why => why.detail
  | .fault why => why.detail

/-- Why an expression has no value. -/
inductive EvalError where
  | factorialUndefined (operand : Float)
  | argumentCount (name : String) (arity : Arity) (given : Nat)
  | listRefused (name : String) (given : Nat)
  | argumentIndex (index : Option Int) (length : Nat)
  | tooDeep
  | unknownOperation
  | operandMissing

def EvalError.label : EvalError → String
  | .factorialUndefined _ => "DomainError"
  | .argumentCount .. => "ArgumentIndexError"
  | .listRefused .. => "ArgumentIndexError"
  | .argumentIndex .. => "ArgumentIndexError"
  | .tooDeep => "EvaluationTooDeepError"
  | .unknownOperation => "TypeError"
  | .operandMissing => "InternalError"

def EvalError.message : EvalError → String
  | .factorialUndefined operand =>
    "factorial is undefined for " ++ (Decimal.Layout.general 6).write operand
  | .argumentCount name arity given =>
    name ++ " expects " ++ arity.text ++ " argument(s), got " ++ toString given
  | .listRefused name given =>
    name ++ " takes no argument list, got " ++ toString given ++ " argument(s)"
  | .argumentIndex index length =>
    "argument index " ++ (index.map toString).getD "None" ++ " out of range for " ++
      toString length ++ " argument(s)"
  | .tooDeep => "expression nests too deeply to evaluate"
  | .unknownOperation => "Unknown operation Operation"
  | .operandMissing => "an operand is missing"

/-- Why a text has no value: it is no expression, or the expression has none. -/
inductive Error where
  | parse (cause : ParseError)
  | evaluation (cause : EvalError)

def Error.label : Error → String
  | .parse cause => cause.label
  | .evaluation cause => cause.label

def Error.message : Error → String
  | .parse cause => cause.message
  | .evaluation cause => cause.message

/-- The line of a report: label, colon, message. -/
def Error.report (e : Error) : String :=
  e.label ++ ": " ++ e.message

end Reckoner
