import Reckoner.Catalog.Basic

/-!
# Registrations

A request to add an operation names its kind by a word, which may be unknown.
-/

namespace Reckoner

structure Registration where
  name : String
  kindName : String
  rule : Rule
  doc : String
  arity : Option Arity
  symbol : Option String

/-- A registration whose kind is not known. -/
structure UnknownKind where
  kindName : String
  deriving DecidableEq, Repr

def UnknownKind.label (_ : UnknownKind) : String := "ValueError"

def UnknownKind.message (u : UnknownKind) : String :=
  "Unknown function kind '" ++ u.kindName ++ "'"

/-- The entry that a registration asks for. -/
def Registration.entry (r : Registration) : Except UnknownKind Entry :=
  match Kind.ofName? r.kindName with
  | some kind => .ok (.new r.name kind r.rule r.doc r.arity r.symbol)
  | none => .error ⟨r.kindName⟩

/-- `c` with the entry of a registration. -/
def Catalog.enroll (c : Catalog) (r : Registration) : Except UnknownKind Catalog :=
  r.entry.map c.register

end Reckoner
