import Reckoner.Decimal.Numeral
import Reckoner.Proofs.Grammar.Trees

/-!
# What tokens and trees show

A `Mark` is what a token shows once parentheses and commas are left out. A tree shows
the marks of its nodes in the order of the text, an argument list those of its items
alone. The lemmas say what is shown by the nodes that a parser makes.
-/

namespace Reckoner

/-- A number by its value, a name, or a sign. -/
inductive Mark where
  | number (value : Option Float)
  | name (text : String)
  | sign (symbol : String)

/-- The sign of a product. -/
def Mark.isStar : Mark → Bool
  | .sign symbol => symbol == "*"
  | _ => false

/-- What a token shows. A number that cannot be read shows no value. -/
def Token.mark? (t : Token) : Option Mark :=
  match t.kind with
  | .number => some (.number (Decimal.read? t.text))
  | .name => some (.name t.text)
  | .operator o => some (.sign o.symbol)
  | .bang => some (.sign "!")
  | .opening | .closing | .comma => none

/-- An operation with a symbol shows that, any other one its name. -/
def Entry.mark (entry : Entry) : Mark :=
  match entry.symbol with
  | some symbol => .sign symbol
  | none => .name entry.name

theorem Entry.mark_of_symbol {entry : Entry} {symbol : String} (h : entry.symbol = some symbol) :
    entry.mark = .sign symbol := by
  simp [mark, h]

/-- What is found by name shows that name. -/
theorem Catalog.mark_of_lookup? {c : Catalog} {name : String} {entry : Entry} (known : c.lookup? name = some entry) :
    entry.mark = .name name := by
  obtain ⟨same, unsigned⟩ := of_lookup? known
  simp [Entry.mark, unsigned, same]

namespace Expression

mutual

/-- Left operand, node and right operand. The items of an argument list follow each other
without a mark of the list. -/
def marks : Expression → List Mark
  | ⟨.literal value, left, right⟩ => marksOption left ++ .number (some value) :: marksOption right
  | ⟨.reference entry, left, right⟩ => marksOption left ++ entry.mark :: marksOption right
  | ⟨.arguments items, left, right⟩ => marksOption left ++ (marksList items ++ marksOption right)
  | ⟨_, left, right⟩ => marksOption left ++ marksOption right

def marksOption : Option Expression → List Mark
  | none => []
  | some e => e.marks

def marksList : List Expression → List Mark
  | [] => []
  | e :: rest => e.marks ++ marksList rest

end

variable {a b e : Expression} {entry star : Entry} {left right : Option Expression}

@[simp] theorem marksOption_none : marksOption none = [] := rfl

@[simp] theorem marksOption_some : marksOption (some e) = e.marks := rfl

theorem marks_literal (value : Float) : (literal value).marks = [.number (some value)] := rfl

theorem marks_of_reference :
    marks ⟨.reference entry, left, right⟩ = marksOption left ++ entry.mark :: marksOption right := rfl

theorem marks_reference : (reference entry).marks = [entry.mark] := rfl

theorem marksList_append (es fs : List Expression) : marksList (es ++ fs) = marksList es ++ marksList fs := by
  induction es with
  | nil => rfl
  | cons e rest ih => rw [List.cons_append, marksList, marksList, ih, List.append_assoc]

/-- The arguments of a call show what its content shows. -/
theorem marksList_asArguments (content : Grammar.Content e) : marksList e.asArguments = e.marks := by
  cases content with
  | single h => rw [Grammar.asArguments_of_not_list h.root, marksList, marksList, List.append_nil]
  | list => simp [asArguments, arguments, marks]

theorem marks_snoc (content : Grammar.Content a) (b : Expression) :
    (arguments (a.asArguments ++ [b])).marks = a.marks ++ b.marks := by
  simp [arguments, marks, marksList_append, marksList_asArguments content, marksList]

/-- An operand in a free right slot is shown last. -/
theorem marks_withRight (free : a.right = none) (b : Expression) : (a.withRight b).marks = a.marks ++ b.marks := by
  obtain ⟨operation, left, right⟩ := a
  obtain rfl : right = none := free
  cases operation <;> simp [withRight, marks]

/-- Operands side by side are shown one after the other, or with a sign between them. -/
theorem marks_beside (a b : Expression) (star : Entry) :
    (a.beside star b).marks = a.marks ++ b.marks ∨ (a.beside star b).marks = a.marks ++ star.mark :: b.marks := by
  unfold beside
  split
  · exact .inr rfl
  · next free => exact .inl (marks_withRight (by simpa using free) b)

/-- An empty pair of parentheses shows nothing. -/
theorem marks_emptyCall (entry : Entry) : (emptyCall entry).marks = [entry.mark] := by
  unfold emptyCall
  split
  · rfl
  · rw [marks_withRight rfl]
    rfl

end Expression

end Reckoner
