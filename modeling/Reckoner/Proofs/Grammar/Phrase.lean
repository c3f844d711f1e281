import Mathlib.Data.Nat.Basic
import Mathlib.Order.Basic
import Reckoner.Catalog.Basic
import Reckoner.Decimal.Numeral
import Reckoner.Expression.Basic
import Reckoner.Token.Basic

/-!
# The grammar of expressions

The grammar says which token lists are expressions and what tree each of them
stands for, without a stack. Phrases come in levels, from the arguments of a
call down to a single element. Of every binary operator it is said which levels
its operands have and which level it makes; the two associativities and the
precedences are in that table and nowhere else.
-/

namespace Reckoner.Grammar

/-- The categories of phrases; a later one binds tighter. -/
inductive Level where
  | arguments
  | sum
  | chain
  | product
  | unary
  | power
  | run
  | element
  deriving DecidableEq, Repr

def Level.rank : Level → Nat
  | .arguments => 0
  | .sum => 1
  | .chain => 2
  | .product => 3
  | .unary => 4
  | .power => 5
  | .run => 6
  | .element => 7

instance : Preorder Level := Preorder.lift Level.rank

instance (k l : Level) : Decidable (k ≤ l) := inferInstanceAs (Decidable (k.rank ≤ l.rank))

end Reckoner.Grammar

namespace Reckoner

open Grammar

namespace Operator

/-- The level of the phrase before an operator. -/
def leftLevel : Operator → Level
  | .plus | .minus => .chain
  | .star | .slash => .product
  | .caret => .run

/-- The level of the phrase after it. -/
def rightLevel : Operator → Level
  | .plus => .sum
  | .minus => .product
  | .star | .slash | .caret => .unary

/-- The level of the phrase that the three make. -/
def resultLevel : Operator → Level
  | .plus => .sum
  | .minus => .chain
  | .star | .slash => .product
  | .caret => .power

end Operator

namespace Expression

/-- Two operands side by side: the second fills the empty right slot of the first,
and is a factor beside it if that slot is taken. -/
def beside (star : Entry) (left right : Expression) : Expression :=
  if left.right.isSome then ⟨.reference star, some left, some right⟩ else left.withRight right

/-- The arguments that a tree stands for; what is no list is one argument. -/
def asArguments (e : Expression) : List Expression :=
  match e.operation with
  | .arguments items => items
  | _ => [e]

/-- A call without arguments. A constant stays as it is. -/
def emptyCall (entry : Entry) : Expression :=
  if entry.kind = .nullary then .reference entry else (reference entry).withRight (.arguments [])

end Expression

namespace Grammar

/-- `Phrase c extended next l ts e`: before a token of the kind `next`, or at the end,
the tokens `ts` are a phrase of level `l` and stand for the tree `e`. If it is `extended`,
the grammar has two productions more: a constant that makes up the whole run so
far takes a group behind it for its arguments, although that group does not follow
its name. -/
inductive Phrase (c : Catalog) (extended : Bool) :
    Option TokenKind → Level → List Token → Expression → Prop where
  | loosen {next k l ts e} (phrase : Phrase c extended next l ts e) (le : k ≤ l) :
      Phrase c extended next k ts e
  | argument {next ts t us a b} (before : Phrase c extended (some .comma) .arguments ts a)
      (comma : t.kind = .comma) (last : Phrase c extended next .sum us b) :
      Phrase c extended next .arguments (ts ++ t :: us) (.arguments (a.asArguments ++ [b]))
  | binary {next o entry ts t us a b} (left : Phrase c extended (some (.operator o)) o.leftLevel ts a)
      (sign : t.kind = .operator o) (known : c.operator? o.symbol = some entry)
      (right : Phrase c extended next o.rightLevel us b) :
      Phrase c extended next o.resultLevel (ts ++ t :: us) ⟨.reference entry, some a, some b⟩
  | negation {next entry t ts a} (sign : t.kind = .operator .minus)
      (known : c.operator? "-" = some entry) (operand : Phrase c extended next .unary ts a) :
      Phrase c extended next .unary (t :: ts) ⟨.reference entry, none, some a⟩
  | factorial {next entry ts t a} (operand : Phrase c extended (some .bang) .run ts a)
      (sign : t.kind = .bang) (known : c.operator? "!" = some entry) :
      Phrase c extended next .run (ts ++ [t]) ⟨.reference entry, some a, none⟩
  | juxtaposition {next star ts us a b} (left : Phrase c extended (us.head?.map Token.kind) .run ts a)
      (right : Phrase c extended next .element us b) (known : c.operator? "*" = some star) :
      Phrase c extended next .run (ts ++ us) (a.beside star b)
  | number {next t value} (kind : t.kind = .number) (read : Decimal.read? t.text = some value) :
      Phrase c extended next .element [t] (.literal value)
  | constant {next entry t} (kind : t.kind = .name) (known : c.lookup? t.text = some entry)
      (nullary : entry.kind = .nullary) (apart : next ≠ some .opening) :
      Phrase c extended next .element [t] (.reference entry)
  | group {next o q ts e} (opening : o.kind = .opening) (content : Phrase c extended (some .closing) .sum ts e)
      (closing : q.kind = .closing) : Phrase c extended next .element (o :: (ts ++ [q])) e
  | call {next entry n o q ts e} (name : n.kind = .name) (known : c.lookup? n.text = some entry)
      (opening : o.kind = .opening) (content : Phrase c extended (some .closing) .arguments ts e)
      (closing : q.kind = .closing) :
      Phrase c extended next .element (n :: o :: (ts ++ [q])) ((Expression.reference entry).withRight e)
  | emptyCall {next entry n o q} (name : n.kind = .name) (known : c.lookup? n.text = some entry)
      (opening : o.kind = .opening) (closing : q.kind = .closing) :
      Phrase c extended next .element [n, o, q] (.emptyCall entry)
  | reuse {next entry o q ts us e} (allowed : extended = true)
      (callee : Phrase c extended (some .opening) .run ts (.reference entry)) (nullary : entry.kind = .nullary)
      (opening : o.kind = .opening) (content : Phrase c extended (some .closing) .arguments us e)
      (several : e.isList = true) (closing : q.kind = .closing) :
      Phrase c extended next .run (ts ++ o :: (us ++ [q])) ((Expression.reference entry).withRight e)
  | emptyReuse {next entry o q ts} (allowed : extended = true)
      (callee : Phrase c extended (some .opening) .run ts (.reference entry)) (nullary : entry.kind = .nullary)
      (opening : o.kind = .opening) (closing : q.kind = .closing) :
      Phrase c extended next .run (ts ++ [o, q]) (.reference entry)

end Grammar

end Reckoner
