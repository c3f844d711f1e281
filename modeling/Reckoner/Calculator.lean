import Reckoner.Assembly.Build
import Reckoner.Catalog.Standard
import Reckoner.Expression.Evaluate
import Reckoner.Settings
import Reckoner.Token.Lexer

/-!
# The calculator

`parse` reads an expression from a text, `evaluateText` reads and evaluates one on
a machine that goes down a given number of levels.
Constants given with a text are added to the catalog for that text alone.
-/

namespace Reckoner

/-- The expression that `tokens` build over `catalog`, starting afresh. -/
def Catalog.expression (catalog : Catalog) (tokens : List Token) : Except ParseError Expression :=
  match Assembly.empty.build catalog tokens with
  | .ok (root, _) => .ok root
  | .error failure => .error failure.cause

/-- The expression written in `source`. A missing or blank text is refused first,
then one that is too long, then what is no expression, then one that is too deep. -/
def parse (catalog : Catalog) (constants : List (String × Float)) (settings : Settings)
    (source : Option String) : Except ParseError Expression := do
  let text ← match source with
    | some text => if Text.isBlankText text then .error .emptyInput else .ok text
    | none => .error .emptyInput
  if settings.maxInputLength < text.length then
    .error (.inputTooLong text.length settings.maxInputLength)
  let tokens ← tokenize text
  if tokens.isEmpty then .error .emptyInput
  let root ← (catalog.withConstants constants).expression tokens
  let depth := root.measuredDepth
  if settings.maxDepth < depth then .error (.expressionTooDeep depth settings.maxDepth)
  return root

/-- The value of the expression written in `source`. -/
def evaluateText (catalog : Catalog) (constants : List (String × Float)) (settings : Settings)
    (levels : Nat) (draws : Draws) (source : Option String) : Except Error Float :=
  match parse catalog constants settings source with
  | .error cause => .error (.parse cause)
  | .ok root =>
    match root.value levels none draws with
    | .error cause => .error (.evaluation cause)
    | .ok value => .ok value

end Reckoner
