import Reckoner.Number.Aggregate
import Reckoner.Number.Elementary
import Reckoner.Number.Remainder

/-!
# Catalog entries

An `Entry` is a named operation: how it is written (`Kind`), how many arguments
it takes (`Arity`), and what it computes (`Rule`). An entry with a symbol is an
operator; one without is called by its name.
-/

namespace Reckoner

open Number

/-- How an operation takes its operands. -/
inductive Kind where
  /-- Between two operands; a minus sign also before one. -/
  | binary
  /-- A call with one argument. -/
  | unary
  /-- A call with a list of arguments. -/
  | variadic
  /-- Behind its operand. -/
  | suffix
  /-- A constant. -/
  | nullary
  deriving DecidableEq, Repr

def Kind.name : Kind → String
  | .binary => "binary"
  | .unary => "unary"
  | .variadic => "variadic"
  | .suffix => "postfix"
  | .nullary => "nullary"

def Kind.all : List Kind := [.binary, .unary, .variadic, .suffix, .nullary]

def Kind.ofName? (name : String) : Option Kind :=
  Kind.all.find? (·.name == name)

theorem Kind.ofName?_name (k : Kind) : Kind.ofName? k.name = some k := by
  cases k <;> decide

/-- The number of arguments lies between `least` and `most`, or has no upper bound. -/
structure Arity where
  least : Nat
  most : Option Nat
  deriving DecidableEq, Repr

def Arity.admits (a : Arity) (count : Nat) : Bool :=
  a.least ≤ count && a.most.all fun most => count ≤ most

/-- The words of an error message: `2`, `1+` or `0-1`. -/
def Arity.text (a : Arity) : String :=
  match a.most with
  | none => toString a.least ++ "+"
  | some most =>
    if most == a.least then toString a.least else toString a.least ++ "-" ++ toString most

/-- The arity of an entry that declares none. -/
def Kind.arity : Kind → Arity
  | .binary => ⟨2, some 2⟩
  | .unary => ⟨1, some 1⟩
  | .variadic => ⟨0, none⟩
  | .suffix => ⟨1, some 1⟩
  | .nullary => ⟨0, some 0⟩

/-- The functions of a list of numbers that evaluate every argument. -/
inductive Summary where
  | total
  | average
  | least
  | greatest
  deriving DecidableEq, Repr

def Summary.apply : Summary → List Float → Float
  | .total, xs => Number.sum xs
  | .average, xs => Number.mean xs
  | .least, xs => Number.least xs
  | .greatest, xs => Number.greatest xs

/-- The functions of exactly two arguments. -/
inductive Pairing where
  | remainder
  | root
  | logBase
  deriving DecidableEq, Repr

def Pairing.apply : Pairing → Float → Float → Float
  | .remainder, a, b => Number.remainder a b
  | .root, x, n => Number.root x n
  | .logBase, x, b => Number.logBase x b

/-- What an operation computes from its operands. -/
inductive Rule where
  | add
  | subtract
  | multiply
  | divide
  | power
  | factorial
  | elementary (f : Elementary)
  | pairing (f : Pairing)
  | summary (f : Summary)
  | count
  | constant (value : Float)
  | random

/-- A named operation of the calculator. -/
structure Entry where
  name : String
  kind : Kind
  rule : Rule
  arity : Arity
  symbol : Option String
  doc : String

/-- An operator is found by its symbol and anything else by its name. -/
def Entry.key (e : Entry) : String :=
  e.symbol.getD e.name

/-- The arity of a new entry: the declared one or that of its kind. -/
def Entry.new (name : String) (kind : Kind) (rule : Rule) (doc : String)
    (arity : Option Arity) (symbol : Option String) : Entry :=
  ⟨name, kind, rule, arity.getD kind.arity, symbol, doc⟩

def Entry.constant (name : String) (value : Float) (doc : String) : Entry :=
  .new name .nullary (.constant value) doc none none

end Reckoner
