import Reckoner.Assembly.Basic
import Reckoner.Expression.Outline

/-!
# Written pieces

One line for each piece of an assembly: an operand is described as a tree, a
boundary by its sign and its position.
-/

namespace Reckoner

def Opening.describe (o : Opening) : String := Expression.describeMarker "(" o.position

def Piece.describe (piece : Piece) : String := piece.asOperand.describe

namespace Assembly

/-- The pieces from the bottom up. -/
def stackLines (a : Assembly) : List String := a.stack.reverse.map Piece.describe

/-- The open groups from the outermost to the innermost. -/
def groupLines (a : Assembly) : List String := a.groups.reverse.map Opening.describe

end Assembly

end Reckoner
