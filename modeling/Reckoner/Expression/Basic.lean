import Reckoner.Error

/-!
# Expression trees

An `Expression` is an operation with up to two operands. A binary operator has
both, a minus sign without a left operand negates, a call keeps its argument or
its argument list on the right, and a number, constant or factorial with a right
operand is multiplied by it. Trees of any other form can be built too, and every
function here is defined on all of them.
-/

namespace Reckoner

/-- What stands at a node; `α` is the type of the nodes. -/
inductive Operation (α : Type) where
  | literal (value : Float)
  | reference (entry : Entry)
  | arguments (items : List α)
  /-- No operation yet: such a node cannot be evaluated. -/
  | bare
  /-- The sign and position of a boundary that stands where an operand should. It
  cannot be evaluated either. -/
  | boundary (symbol : String) (position : Nat)

structure Expression where
  operation : Operation Expression
  left : Option Expression
  right : Option Expression

/-- The items of an argument list; other operations have none. -/
def Operation.items {α : Type} : Operation α → List α
  | .arguments items => items
  | _ => []

namespace Expression

def literal (value : Float) : Expression := ⟨.literal value, none, none⟩

def reference (entry : Entry) : Expression := ⟨.reference entry, none, none⟩

def arguments (items : List Expression) : Expression := ⟨.arguments items, none, none⟩

/-- `e` with `operand` on its right. -/
def withRight (e operand : Expression) : Expression := { e with right := some operand }

/-- The catalog entry of a reference. -/
def entry? (e : Expression) : Option Entry :=
  match e.operation with
  | .reference entry => some entry
  | _ => none

def symbol? (e : Expression) : Option String := e.entry?.bind Entry.symbol

def name? (e : Expression) : Option String := e.entry?.map Entry.name

/-- A reference to a binary operation. -/
def isOperator (e : Expression) : Bool :=
  e.entry?.any fun entry => entry.kind == .binary

/-- A minus sign without a left operand. -/
def isNegation (e : Expression) : Bool :=
  e.isOperator && e.symbol? == some "-" && e.left.isNone

/-- An operator whose right operand has not been read yet. -/
def awaitsOperand (e : Expression) : Bool :=
  e.isOperator && e.right.isNone

/-- A name that an open parenthesis turns into a call. -/
def awaitsCall (e : Expression) : Bool :=
  (e.entry?.any fun entry => entry.kind == .unary || entry.kind == .variadic || entry.kind == .nullary)
    && e.right.isNone

/-- Nothing is missing on the right: `e` can be an operand. -/
def isComplete (e : Expression) : Bool :=
  match e.entry? with
  | none => true
  | some entry =>
    match entry.kind with
    | .binary | .unary | .variadic => e.right.isSome
    | .suffix | .nullary => true

/-- Left operand, right operand and list items, as far as there are any. -/
def children (e : Expression) : List Expression :=
  e.left.toList ++ e.right.toList ++ e.operation.items

/-- `e` is an argument list. -/
def isList (e : Expression) : Bool :=
  match e.operation with
  | .arguments _ => true
  | _ => false

/-- The number of arguments that `e` stands for; what is no list is one argument. -/
def argumentCount (e : Expression) : Nat :=
  match e.operation with
  | .arguments items => items.length
  | _ => 1

/-- The element of `xs` at a position that may be out of range on either side. -/
def itemAt? {α : Type} (xs : List α) (index : Int) : Option α :=
  if index < 0 then none else xs[index.toNat]?

/-- The argument at `index`; what is no list is its own argument zero. -/
def argument (e : Expression) (index : Int) : Except EvalError Expression :=
  let items := match e.operation with
    | .arguments items => items
    | _ => [e]
  match itemAt? items index with
  | some item => .ok item
  | none => .error (.argumentIndex (some index) items.length)

end Expression

end Reckoner
