import Reckoner.Assembly.Basic
import Reckoner.Decimal.Numeral

/-!
# Building an expression token by token

`feed` takes one token, knowing the kind of the next one; `feedAll` takes a list
of them, and `build` finishes with a single expression. An assembly can be used
again after a failure, and then starts from the pieces that were left.
-/

namespace Reckoner.Assembly

/-- A step on the stack that leaves the groups alone. -/
def onStack (a : Assembly) (result : StackResult (List Piece)) : Except Failure Assembly :=
  match result with
  | .ok stack => .ok { a with stack }
  | .error (cause, stack) => .error ⟨cause, { a with stack }⟩

def fail (a : Assembly) (cause : ParseError) : Except Failure Assembly :=
  .error ⟨cause, a⟩

def feedNumber (catalog : Catalog) (token : Token) (next : Option TokenKind) (a : Assembly) :
    Except Failure Assembly :=
  match Decimal.read? token.text with
  | some value => a.onStack (place catalog next (.operand (.literal value)) a.stack)
  | none => a.fail (.unexpectedToken token.text token.position .malformedNumber)

/-- A name before a parenthesis waits for its arguments; a constant is an operand
by itself; a function without a parenthesis is refused. -/
def feedName (catalog : Catalog) (token : Token) (next : Option TokenKind) (a : Assembly) :
    Except Failure Assembly :=
  match catalog.lookup? token.text with
  | none => a.fail (.unknownFunction token.text)
  | some entry =>
    if next == some .opening then .ok { a with stack := .operand (.reference entry) :: a.stack }
    else if entry.kind == .nullary then a.onStack (place catalog next (.operand (.reference entry)) a.stack)
    else a.fail (.unexpectedToken token.text token.position (.callMissing entry.name))

/-- Nothing to the left of a minus sign makes it negate: the bottom of the stack,
a boundary, or an operator that waits for its right operand. -/
def opensOperand : List Piece → Bool
  | [] => true
  | .operand top :: _ => top.awaitsOperand
  | _ => true

/-- The node of an operator that has been read, and the pieces below it: the
operand on top becomes its left operand, unless the operator is a minus sign
where no operand has been read. -/
def operatorNode (entry : Entry) (token : Token) (stack : List Piece) :
    Except ParseError (Expression × List Piece) :=
  if entry.symbol == some "-" && opensOperand stack then .ok (.reference entry, stack)
  else
    match stack with
    | .operand top :: below =>
      if top.isComplete then .ok (⟨.reference entry, some top, none⟩, below)
      else .error (.unexpectedToken token.text token.position .leftOperandMissing)
    | _ => .error (.unexpectedToken token.text token.position .leftOperandMissing)

def feedOperator (catalog : Catalog) (symbol : String) (token : Token) (a : Assembly) :
    Except Failure Assembly :=
  match (catalog.operator symbol).bind fun entry => operatorNode entry token a.stack with
  | .ok (node, below) => .ok { a with stack := .operand node :: below }
  | .error cause => a.fail cause

/-- A factorial sign takes the operand on top and is an operand at once. -/
def feedBang (catalog : Catalog) (token : Token) (next : Option TokenKind) (a : Assembly) :
    Except Failure Assembly :=
  match (catalog.operator "!").bind fun entry => operatorNode entry token a.stack with
  | .ok (node, below) => a.onStack (place catalog next (.operand node) below)
  | .error cause => a.fail cause

/-- A parenthesis behind a name that waits for its arguments opens a call. -/
def feedOpening (token : Token) (a : Assembly) : Assembly :=
  let opensCall := match a.stack with
    | .operand top :: _ => top.awaitsCall
    | _ => false
  let opening : Opening := ⟨token.position, opensCall, a.stack.length, false⟩
  ⟨.opening opening :: a.stack, opening :: a.groups⟩

/-- A comma ends an argument of the innermost group, which has to be a call. -/
def feedComma (token : Token) (a : Assembly) : Except Failure Assembly :=
  if (a.groups.head?.map Opening.opensCall).getD false then
    match a.stack with
    | .opening _ :: _ => a.fail (.unexpectedToken "," token.position .emptyArgument)
    | .comma _ :: _ => a.fail (.unexpectedToken "," token.position .emptyArgument)
    | stack =>
      a.onStack ((link stack).map fun (argument, below) =>
        .comma token.position :: .operand argument :: below)
  else a.fail (.unexpectedToken "," token.position .commaOutsideCall)

/-- The arguments of a call: those in parentheses, or an empty list, which a
constant does without. -/
def withArguments (callee : Expression) (content : Option Expression) : Option Expression :=
  match content with
  | some content => some (callee.withRight content)
  | none => callee.entry?.map fun entry =>
    if entry.kind == .nullary then callee else callee.withRight (.arguments [])

/-- The call of the piece below an open parenthesis. After a failure that piece
can be a boundary, which a content fills without showing. -/
def callOf (content : Option Expression) : Piece → Option Piece
  | .operand callee => (withArguments callee content).map .operand
  | .opening o => content.map fun _ => .opening { o with filled := true }
  | .comma position => content.map fun _ => .comma position

/-- Puts down the group that `opening` began. Its content is none for an empty
pair of parentheses, which is an operand only as an argument list. -/
def placeGroup (catalog : Catalog) (next : Option TokenKind) (opening : Opening)
    (content : Option Expression) (stack : List Piece) : StackResult (List Piece) :=
  if opening.opensCall then
    match stack with
    | [] => .error (.fault .stackExhausted, [])
    | callee :: below =>
      match callOf content callee with
      | some call => place catalog next call below
      | none => .error (.fault .boundaryAsOperand, below)
  else
    match content with
    | some content => place catalog next (.operand content) stack
    | none => .error (.unexpectedToken "()" opening.position .emptyParentheses, stack)

/-- A closing parenthesis ends the innermost group, also when that fails. -/
def feedClosing (catalog : Catalog) (token : Token) (next : Option TokenKind) (a : Assembly) :
    Except Failure Assembly :=
  match a.groups with
  | [] => a.fail (.unmatchedParenthesis token.position)
  | opening :: groups =>
    let closed : Assembly := { a with groups }
    let emptyArgument := closed.fail (.unexpectedToken ")" token.position .emptyArgument)
    match a.stack with
    | .opening top :: below =>
      if top == opening then closed.onStack (placeGroup catalog next opening none below)
      else emptyArgument
    | .comma _ :: _ => emptyArgument
    | stack =>
      closed.onStack ((closeScope stack).bind fun (content, below) =>
        placeGroup catalog next opening (some content) below)

/-- Takes one token; `next` is the kind of the token that follows it. -/
def feed (catalog : Catalog) (token : Token) (next : Option TokenKind) (a : Assembly) :
    Except Failure Assembly :=
  match token.kind with
  | .number => a.feedNumber catalog token next
  | .name => a.feedName catalog token next
  | .operator o => a.feedOperator catalog o.symbol token
  | .bang => a.feedBang catalog token next
  | .opening => .ok (a.feedOpening token)
  | .closing => a.feedClosing catalog token next
  | .comma => a.feedComma token

/-- Takes the tokens one after the other; `after` is the kind of the token that
follows the last of them. -/
def feedAll (catalog : Catalog) (after : Option TokenKind) :
    List Token → Assembly → Except Failure Assembly
  | [], a => .ok a
  | token :: rest, a =>
    (a.feed catalog token ((rest.head?.map Token.kind).or after)).bind (feedAll catalog after rest)

/-- Joins all pieces into one expression; none may be left. -/
def finish (a : Assembly) : Except Failure (Expression × Assembly) :=
  match a.groups with
  | opening :: _ => .error ⟨.unclosedParenthesis opening.position, a⟩
  | [] =>
    match link a.stack with
    | .ok (root, []) => .ok (root, empty)
    | .ok (_, stack) => .error ⟨.unbalanced (.leftOver stack.length), { a with stack }⟩
    | .error (cause, stack) => .error ⟨cause, { a with stack }⟩

/-- The expression that `tokens` add up to, and the assembly that is left. -/
def build (catalog : Catalog) (tokens : List Token) (a : Assembly) :
    Except Failure (Expression × Assembly) :=
  (a.feedAll catalog none tokens).bind finish

end Reckoner.Assembly
