/-!
# Tokens

A token is a kind, the text it was written with, and the position of its first
character. Two operators are weighed against each other by `Operator.level`;
a minus sign that negates has the level `negationLevel` between product and power.
-/

namespace Reckoner

/-- The signs that stand between two operands. -/
inductive Operator where
  | plus
  | minus
  | star
  | slash
  | caret
  deriving DecidableEq, Repr

namespace Operator

def symbol : Operator → String
  | .plus => "+"
  | .minus => "-"
  | .star => "*"
  | .slash => "/"
  | .caret => "^"

def all : List Operator := [.plus, .minus, .star, .slash, .caret]

def ofSymbol? (symbol : String) : Option Operator :=
  all.find? (·.symbol == symbol)

theorem ofSymbol?_symbol (o : Operator) : ofSymbol? o.symbol = some o := by
  cases o <;> decide

/-- Operators of a higher level bind tighter. -/
def level : Operator → Nat
  | .plus | .minus => 1
  | .star | .slash => 2
  | .caret => 4

/-- Of two operators of one level, these take their right operand at once, so
that they group to the left. -/
def groupsLeft : Operator → Bool
  | .minus | .star | .slash => true
  | .plus | .caret => false

end Operator

/-- The level of a minus sign without a left operand. -/
def negationLevel : Nat := 3

inductive TokenKind where
  | number
  | name
  | operator (o : Operator)
  | bang
  | opening
  | closing
  | comma
  deriving DecidableEq, Repr

/-- The operator between two operands that a kind stands for. -/
def TokenKind.operator? : TokenKind → Option Operator
  | .operator o => some o
  | _ => none

structure Token where
  kind : TokenKind
  text : String
  position : Nat
  deriving DecidableEq, Repr

end Reckoner
