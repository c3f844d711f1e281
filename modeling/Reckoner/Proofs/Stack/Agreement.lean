import Reckoner.Calculator

/-!
# What the parser asks a catalog

The parser asks for the names among the tokens and for the six signs, among them the star of the
products that no token stands for. Catalogs that answer these questions alike are not told apart
by any step, and so by no list of tokens (`Agree.build`).
-/

namespace Reckoner

/-- The signs of the operators. -/
def operatorSigns : List String := ["+", "-", "*", "/", "^", "!"]

theorem Operator.symbol_mem_operatorSigns (o : Operator) : o.symbol ∈ operatorSigns := by
  cases o <;> decide

namespace Catalog

/-- Two catalogs give the same operators for the six signs and the same entries for the names among `tokens`. -/
structure Agree (c d : Catalog) (tokens : List Token) : Prop where
  sign : ∀ symbol ∈ operatorSigns, c.operator? symbol = d.operator? symbol
  name : ∀ t ∈ tokens, t.kind = .name → c.lookup? t.text = d.lookup? t.text

variable {c d : Catalog} {tokens rest : List Token} {t : Token}

theorem Agree.operator (agree : c.Agree d tokens) {symbol : String} (sign : symbol ∈ operatorSigns) :
    c.operator symbol = d.operator symbol := by
  unfold Catalog.operator
  rw [agree.sign symbol sign]

theorem Agree.tail (agree : c.Agree d (t :: rest)) : c.Agree d rest where
  sign := agree.sign
  name u member := agree.name u (List.mem_cons_of_mem t member)

end Catalog

namespace Catalog.Agree

open Assembly

variable {c d : Catalog} {tokens : List Token} {t : Token} {next : Option TokenKind}

/-- Products are the same: the star is one of the signs. -/
theorem product (agree : c.Agree d tokens) (left right : Expression) :
    Assembly.product c left right = Assembly.product d left right := by
  unfold Assembly.product
  rw [agree.operator (by decide)]

theorem juxtapose (agree : c.Agree d tokens) (left right : Expression) :
    Assembly.juxtapose c left right = Assembly.juxtapose d left right := by
  unfold Assembly.juxtapose
  rw [agree.product]

theorem place (agree : c.Agree d tokens) (next : Option TokenKind) (piece : Piece) (stack : List Piece) :
    Assembly.place c next piece stack = Assembly.place d next piece stack := by
  unfold Assembly.place
  simp only [agree.juxtapose]

theorem placeGroup (agree : c.Agree d tokens) (next : Option TokenKind) (opening : Opening)
    (content : Option Expression) (stack : List Piece) :
    Assembly.placeGroup c next opening content stack = Assembly.placeGroup d next opening content stack := by
  unfold Assembly.placeGroup
  simp only [agree.place]

/-- A token is taken alike. Only a name is looked up by its text. -/
theorem feed (agree : c.Agree d tokens) (member : t ∈ tokens) (next : Option TokenKind) (a : Assembly) :
    a.feed c t next = a.feed d t next := by
  unfold Assembly.feed
  cases kind : t.kind with
  | number =>
    show a.feedNumber c t next = a.feedNumber d t next
    unfold feedNumber
    simp only [agree.place]
  | name =>
    show a.feedName c t next = a.feedName d t next
    unfold feedName
    simp only [agree.name t member kind, agree.place]
  | operator o =>
    show a.feedOperator c o.symbol t = a.feedOperator d o.symbol t
    unfold feedOperator
    rw [agree.operator o.symbol_mem_operatorSigns]
  | bang =>
    show a.feedBang c t next = a.feedBang d t next
    unfold feedBang
    simp only [agree.operator (show "!" ∈ operatorSigns by decide), agree.place]
  | opening => rfl
  | closing =>
    show a.feedClosing c t next = a.feedClosing d t next
    unfold feedClosing
    simp only [agree.placeGroup]
  | comma => rfl

/-- By induction on the tokens, from any pieces. -/
theorem feedAll (agree : c.Agree d tokens) (after : Option TokenKind) (a : Assembly) :
    a.feedAll c after tokens = a.feedAll d after tokens := by
  induction tokens generalizing a with
  | nil => rfl
  | cons t rest ih =>
    have others : Assembly.feedAll c after rest = Assembly.feedAll d after rest := funext (ih agree.tail)
    rw [Assembly.feedAll, Assembly.feedAll, agree.feed (List.mem_cons_self ..), others]

theorem build (agree : c.Agree d tokens) (a : Assembly) : a.build c tokens = a.build d tokens := by
  unfold Assembly.build
  rw [agree.feedAll]

theorem expression (agree : c.Agree d tokens) : c.expression tokens = d.expression tokens := by
  unfold Catalog.expression
  rw [agree.build]

end Catalog.Agree
end Reckoner
