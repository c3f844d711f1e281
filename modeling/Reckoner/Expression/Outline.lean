import Reckoner.Expression.Basic
import Reckoner.Text.Quoted

/-!
# Written trees

Three views of an expression. `describe` is one line that names every node and
both of its operands. `outline` is the tree of records that the service answers
with: absent operands and symbols are left out, and of an argument list only the
items remain. `drawing` is text with one line per node, indented by its level.
-/

namespace Reckoner

/-- One node of an outline. -/
inductive Outline where
  | literal (value : Float) (left right : Option Outline)
  | function (name : String) (kind : Kind) (symbol : Option String) (left right : Option Outline)
  | arguments (items : List Outline)
  /-- A node that cannot be evaluated, by its description. -/
  | unknown (description : String)

namespace Expression

/-- The symbol of an entry, unless it is the empty text. -/
def shownSymbol? (entry : Entry) : Option String :=
  entry.symbol.filter fun symbol => !symbol.isEmpty

/-- The words for a boundary: the sign it was written with, quoted, and its position. -/
def describeMarker (symbol : String) (position : Int) : String :=
  "Marker(" ++ Text.quoted symbol ++ ", " ++ toString position ++ ")"

def describeOperation : Operation Expression → String
  | .literal value => "Literal(" ++ Decimal.Layout.exact.write value ++ ")"
  | .reference entry => "FunctionRef(" ++ entry.name ++ ")"
  | .arguments items => "ArgumentList(" ++ toString items.length ++ ")"
  | .bare => "<calc.tree.Operation>"
  | .boundary symbol position => describeMarker symbol position

mutual

/-- A boundary is described by itself, any other node with its operands. -/
def describe : Expression → String
  | ⟨.boundary symbol position, _, _⟩ => describeMarker symbol position
  | ⟨operation, left, right⟩ =>
    "ExpressionNode(" ++ describeOperation operation ++ ", left=" ++ describeOption left ++
      ", right=" ++ describeOption right ++ ")"

def describeOption : Option Expression → String
  | none => "None"
  | some e => e.describe

end

mutual

def outline : Expression → Outline
  | ⟨.literal value, left, right⟩ => .literal value (outlineOption left) (outlineOption right)
  | ⟨.reference entry, left, right⟩ =>
    .function entry.name entry.kind (shownSymbol? entry) (outlineOption left) (outlineOption right)
  | ⟨.arguments items, _, _⟩ => .arguments (outlineList items)
  | ⟨.bare, left, right⟩ => .unknown (describe ⟨.bare, left, right⟩)
  | ⟨.boundary symbol position, _, _⟩ => .unknown (describeMarker symbol position)

def outlineOption : Option Expression → Option Outline
  | none => none
  | some e => some e.outline

def outlineList : List Expression → List Outline
  | [] => []
  | e :: rest => e.outline :: outlineList rest

end

/-- The words for a node in a drawing. -/
def caption : Operation Expression → String
  | .literal value => "Literal(" ++ (Decimal.Layout.general 6).write value ++ ")"
  | .reference entry =>
    match shownSymbol? entry with
    | some symbol => "Function(" ++ entry.name ++ " " ++ symbol ++ ")"
    | none => "Function(" ++ entry.name ++ ")"
  | .arguments items => "Arguments(" ++ toString items.length ++ ")"
  | .bare => "Operation"
  | .boundary symbol position => describeMarker symbol position

/-- `text` repeated `count` times. -/
def repeated (count : Nat) (text : String) : String :=
  String.join (List.replicate count text)

mutual

/-- The lines of a tree whose root stands at `level`; `place` says which child of
its parent it is. An argument list shows its items and nothing else. -/
def lines (indent : String) (level : Nat) (place : String) : Expression → List String
  | ⟨.arguments items, _, _⟩ =>
    (repeated level indent ++ place ++ caption (.arguments items)) ::
      linesList indent (level + 1) 0 items
  | ⟨operation, left, right⟩ =>
    (repeated level indent ++ place ++ caption operation) ::
      (linesOption indent (level + 1) "left: " left ++ linesOption indent (level + 1) "right: " right)

def linesOption (indent : String) (level : Nat) (place : String) : Option Expression → List String
  | none => []
  | some e => e.lines indent level place

def linesList (indent : String) (level index : Nat) : List Expression → List String
  | [] => []
  | e :: rest =>
    e.lines indent level ("arg[" ++ toString index ++ "]: ") ++ linesList indent level (index + 1) rest

end

/-- The tree as text, one line per node, each level indented once more. -/
def drawing (e : Expression) (indent : String) : String :=
  "\n".intercalate (e.lines indent 0 "")

end Expression

/-- Two blanks per level. -/
def defaultIndent : String := "  "

end Reckoner
