/-!
# Records of a sheet

A sheet is a text of records, one per line, whose fields are separated by commas.
A field may stand in quotation marks; inside them commas and line ends are part
of the field, and a mark is written twice. A line ends at a line feed, a carriage
return, or both in this order. Lines of blanks are no records.
-/

namespace Reckoner.Sheet

/-- The text of a field and whether it began with a quotation mark. -/
structure Cell where
  text : String
  quoted : Bool
  deriving DecidableEq, Repr

/-- Where in a field the reader stands. -/
inductive Place where
  /-- Before its first character. -/
  | start
  | plain
  /-- Between two quotation marks. -/
  | inside
  /-- Behind a mark that ends the quotation or begins a doubled one. -/
  | mark
  deriving DecidableEq, Repr

/-- A record that is being read, its characters and fields in reverse order. -/
structure Draft where
  place : Place
  quoted : Bool
  characters : List Char
  fields : List Cell

namespace Draft

def empty : Draft := ⟨.start, false, [], []⟩

/-- The draft with its field finished and the next one begun. -/
def nextField (d : Draft) : Draft :=
  ⟨.start, false, [], ⟨String.ofList d.characters.reverse, d.quoted⟩ :: d.fields⟩

/-- The finished record. -/
def record (d : Draft) : List Cell := d.nextField.fields.reverse

/-- Takes a character that ends neither the field nor the record. -/
def take (d : Draft) (c : Char) : Draft :=
  match d.place with
  | .start =>
    if c == '"' then { d with place := .inside, quoted := true }
    else { d with place := .plain, characters := c :: d.characters }
  | .plain => { d with characters := c :: d.characters }
  | .inside =>
    if c == '"' then { d with place := .mark } else { d with characters := c :: d.characters }
  | .mark => { d with place := if c == '"' then .inside else .plain, characters := c :: d.characters }

/-- Nothing has been read. -/
def isFresh (d : Draft) : Bool := d.place == .start && d.fields.isEmpty

end Draft

/-- The records of a text, the first of which has been read as far as `d`. -/
def recordsFrom (d : Draft) : List Char → List (List Cell)
  | [] => if d.isFresh then [] else [d.record]
  | '\r' :: '\n' :: rest =>
    if d.place == .inside then recordsFrom ((d.take '\r').take '\n') rest
    else d.record :: recordsFrom .empty rest
  | c :: rest =>
    if d.place == .inside then recordsFrom (d.take c) rest
    else if c == '\n' || c == '\r' then d.record :: recordsFrom .empty rest
    else if c == ',' then recordsFrom d.nextField rest
    else recordsFrom (d.take c) rest

/-- A single field of blanks that is not quoted. -/
def isBlankRecord : List Cell → Bool
  | [f] => !f.quoted && f.text.toList.all fun c => c == ' ' || c == '\t'
  | _ => false

/-- The characters of a text without the mark of its byte order. -/
def unmarked (text : String) : List Char :=
  match text.toList with
  | '\uFEFF' :: rest => rest
  | characters => characters

/-- The records of a text. -/
def records (text : String) : List (List Cell) :=
  (recordsFrom .empty (unmarked text)).filter fun r => !isBlankRecord r

end Reckoner.Sheet
