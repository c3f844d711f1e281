/-!
# Unchecked data

Request bodies, settings and spreadsheet cells arrive as data of any shape.
-/

namespace Reckoner

/-- A value as it arrives, before anything is known about it. -/
inductive Datum where
  | null
  | flag (value : Bool)
  | integer (value : Int)
  | real (value : Float)
  | text (value : String)
  | list (items : List Datum)
  | record (fields : List (String × Datum))
  deriving Inhabited

namespace Datum

/-- The text of a datum; what is no text has none. -/
def text? : Datum → Option String
  | .text value => some value
  | _ => none

/-- The field called `name` of a list of named data. -/
def field? (name : String) (fields : List (String × Datum)) : Option Datum :=
  (fields.find? (·.1 == name)).map Prod.snd

end Datum

end Reckoner
