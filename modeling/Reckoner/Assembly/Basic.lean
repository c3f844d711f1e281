import Reckoner.Catalog.Basic
import Reckoner.Expression.Basic
import Reckoner.Token.Basic

/-!
# Pieces of an expression

While a text is read, the expression lies in pieces on a stack: operands, some
still waiting for their right operand, and the boundaries of open groups. An
`Assembly` is that stack together with the open groups. The functions here work
on the stack alone; when one of them fails it says what is left of it.

* `juxtapose` joins two operands that stand side by side.
* `settle` lets pending operators take an operand before a looser one follows.
* `place` puts down a finished operand.
* `link` joins everything above the innermost boundary.
-/

namespace Reckoner

/-- An open parenthesis. It is known by its `height`, the number of pieces below
it, so two of them on one stack always differ. It is `filled` once it has been
taken for the callee of a call. -/
structure Opening where
  position : Nat
  opensCall : Bool
  height : Nat
  filled : Bool
  deriving DecidableEq, Repr

/-- An entry of the stack. -/
inductive Piece where
  | operand (e : Expression)
  | opening (o : Opening)
  | comma (position : Nat)

/-- A piece as a node of a tree. A boundary is a leaf there. -/
def Piece.asOperand : Piece → Expression
  | .operand e => e
  | .opening o => ⟨.boundary "(" o.position, none, none⟩
  | .comma position => ⟨.boundary "," position, none, none⟩

/-- The state of the parser: pieces from the top down, and the groups whose
closing parenthesis has not been read, innermost first. -/
structure Assembly where
  stack : List Piece
  groups : List Opening

/-- A cause, and the pieces that were left when it arose. -/
structure Failure where
  cause : ParseError
  remains : Assembly

/-- The result of a step on the stack; an error carries what is left of it. -/
abbrev StackResult (α : Type) := Except (ParseError × List Piece) α

namespace Assembly

def empty : Assembly := ⟨[], []⟩

/-- Whether the operator `pending` takes its right operand before `upcoming`
does. The higher level goes first; on one level the operators that group to the
left do. Nothing is known of a symbol that is no operator. -/
def bindsBefore? (pending : Expression) (upcoming : Operator) : Option Bool :=
  if pending.isNegation then some (upcoming.level < negationLevel)
  else
    (pending.symbol?.bind Operator.ofSymbol?).map fun o =>
      if o.level == upcoming.level then o.groupsLeft else upcoming.level < o.level

/-- The product of two factors. -/
def product (catalog : Catalog) (left right : Expression) : Except ParseError Expression :=
  (catalog.operator "*").map fun star => ⟨.reference star, some left, some right⟩

/-- `right` becomes the right operand of `left`; if `left` has one already, the
two are factors of a product. -/
def juxtapose (catalog : Catalog) (left right : Expression) : Except ParseError Expression :=
  if left.right.isSome then product catalog left right else .ok (left.withRight right)

/-- Puts `piece` on top, after every pending operator that binds before
`upcoming` has taken it as its right operand. -/
def settle (upcoming : Operator) (piece : Piece) : List Piece → StackResult (List Piece)
  | .operand top :: below =>
    if top.awaitsOperand then
      match bindsBefore? top upcoming with
      | some true => settle upcoming (.operand (top.withRight piece.asOperand)) below
      | some false => .ok (piece :: .operand top :: below)
      | none => .error (.fault (.precedenceUnknown top.symbol?), .operand top :: below)
    else .ok (piece :: .operand top :: below)
  | stack => .ok (piece :: stack)

/-- Puts `piece` on top unless an operator follows that makes it settle. -/
def settleBefore (next : Option TokenKind) (piece : Piece) (stack : List Piece) :
    StackResult (List Piece) :=
  match next.bind TokenKind.operator? with
  | some upcoming => settle upcoming piece stack
  | none => .ok (piece :: stack)

/-- Puts down a finished operand. A complete operand on top is joined with it
first; `next` is the kind of the token that follows. A boundary in the place of
an operand is put down the same way, and stays a boundary if nothing takes it. -/
def place (catalog : Catalog) (next : Option TokenKind) (piece : Piece)
    (stack : List Piece) : StackResult (List Piece) :=
  match stack with
  | .operand top :: below =>
    if top.isComplete then
      match juxtapose catalog top piece.asOperand with
      | .ok joined => settleBefore next (.operand joined) below
      | .error cause => .error (cause, stack)
    else settleBefore next piece stack
  | _ => settleBefore next piece stack

/-- Makes `operand` the right operand of the piece on top, which may be an open
parenthesis only if that is filled. -/
def attach (catalog : Catalog) (operand : Expression) (stack : List Piece) :
    StackResult (List Piece) :=
  let joined : Except ParseError Expression := match stack with
    | [] => .ok operand
    | .operand top :: _ => juxtapose catalog top operand
    | .opening o :: _ =>
      if o.filled then product catalog (Piece.opening o).asOperand operand
      else .error (.fault .boundaryAsOperand)
    | .comma _ :: _ => .error (.fault .boundaryAsOperand)
  match joined with
  | .ok joined => .ok (.operand joined :: stack.drop 1)
  | .error cause => .error (cause, stack)

/-- Makes `current` the right operand of the operator above the next boundary,
that one the right operand of the next, and so on. Every piece on the way has to
be an operator that waits for an operand. -/
def chain (current : Expression) : List Piece → StackResult (Expression × List Piece)
  | .operand previous :: below =>
    if previous.awaitsOperand then chain (previous.withRight current) below
    else .error (.unbalanced .disconnected, below)
  | stack => .ok (current, stack)

/-- Joins the pieces above the innermost boundary into one expression. -/
def link : List Piece → StackResult (Expression × List Piece)
  | .operand current :: below =>
    if current.isComplete then chain current below
    else .error (.unbalanced (.rightOperandMissing (current.name?.getD "")), below)
  | stack => .error (.unbalanced .operandMissing, stack)

/-- The arguments in front of `later`, back to the parenthesis that opened the
list, and the pieces below it. -/
def collect (later : List Expression) : List Piece → StackResult (List Expression × List Piece)
  | .operand argument :: .comma _ :: below => collect (argument :: later) below
  | .operand argument :: .opening _ :: below => .ok (argument :: later, below)
  | stack => .error (.fault .boundaryAsOperand, stack)

/-- Joins the innermost group into one expression and takes its opening
parenthesis off the stack. Commas make it an argument list. -/
def closeScope (stack : List Piece) : StackResult (Expression × List Piece) :=
  match link stack with
  | .ok (content, .opening _ :: below) => .ok (content, below)
  | .ok (content, .comma _ :: below) =>
    (collect [content] below).map fun (items, below) => (.arguments items, below)
  | .ok (_, stack) => .error (.fault .stackExhausted, stack)
  | .error failure => .error failure

end Assembly

end Reckoner
