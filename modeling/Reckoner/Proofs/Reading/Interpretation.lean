import Reckoner.Proofs.Grammar.Trees

/-!
# Interpretations

An interpretation gives literals, names and operators a meaning in any type. It
extends to trees: `values` is the list of what a tree stands for, several values
for an argument list and one for anything else that is well-formed. The lemmas
beside it say what the nodes that a parser makes stand for.
-/

namespace Reckoner

/-- A meaning of literals, constants, calls and signs. -/
structure Interpretation (α : Type u) where
  literal : Float → α
  constant : String → α
  call : String → List α → α
  binary : Operator → α → α → α
  negate : α → α
  factorial : α → α

namespace Interpretation

variable {α : Type u} (I : Interpretation α)

/-- What an addition on the left may be drawn out of. -/
structure Regroups : Prop where
  plus (x y z : α) : I.binary .plus (I.binary .plus x y) z = I.binary .plus x (I.binary .plus y z)
  minus (x y z : α) : I.binary .minus (I.binary .plus x y) z = I.binary .plus x (I.binary .minus y z)

/-- `x`, times the first of the factors if there is one. -/
def times (x : α) : List α → α
  | [] => x
  | y :: _ => I.binary .star x y

/-- What a name with arguments stands for. A constant is multiplied by a single one. -/
def apply (entry : Entry) (arguments : List α) : α :=
  match entry.kind, arguments with
  | .nullary, [] => I.constant entry.name
  | .nullary, [x] => I.binary .star (I.constant entry.name) x
  | _, _ => I.call entry.name arguments

/-- What an operator stands for with the values on its two sides; without one on its left
it negates. -/
def between (entry : Entry) : List α → List α → List α
  | [x], [y] => ((entry.symbol.bind Operator.ofSymbol?).map fun o => I.binary o x y).toList
  | [], [y] => [I.negate y]
  | _, _ => []

/-- What a node stands for, given the values on its left and right. -/
def node (entry : Entry) (left right : List α) : List α :=
  match entry.kind with
  | .binary => I.between entry left right
  | .suffix => left.map fun x => I.times (I.factorial x) right
  | .unary | .variadic | .nullary => [I.apply entry right]

end Interpretation

namespace Expression

variable {α : Type u} (I : Interpretation α)

mutual

/-- What a tree stands for. -/
def values : Expression → List α
  | ⟨.literal value, _, right⟩ => [I.times (I.literal value) (valuesOption right)]
  | ⟨.arguments items, _, _⟩ => valuesList items
  | ⟨.reference entry, left, right⟩ => I.node entry (valuesOption left) (valuesOption right)
  | _ => []

def valuesOption : Option Expression → List α
  | none => []
  | some e => e.values

def valuesList : List Expression → List α
  | [] => []
  | e :: rest => e.values ++ valuesList rest

end

variable {I} {a b e : Expression} {x y : α} {xs : List α} {entry : Entry} {c : Catalog} {o : Operator}

section

variable {left right : Option Expression}

@[simp] theorem values_of_literal {value : Float} :
    values I ⟨.literal value, left, right⟩ = [I.times (I.literal value) (valuesOption I right)] := rfl

@[simp] theorem values_of_arguments {items : List Expression} :
    values I ⟨.arguments items, left, right⟩ = valuesList I items := rfl

@[simp] theorem values_of_reference :
    values I ⟨.reference entry, left, right⟩ = I.node entry (valuesOption I left) (valuesOption I right) := rfl

@[simp] theorem valuesOption_none : valuesOption I none = [] := rfl

@[simp] theorem valuesOption_some : valuesOption I (some e) = e.values I := rfl

@[simp] theorem valuesList_nil : valuesList I [] = [] := rfl

@[simp] theorem valuesList_cons {rest : List Expression} : valuesList I (e :: rest) = e.values I ++ valuesList I rest := rfl

end

theorem valuesList_append (es fs : List Expression) :
    valuesList I (es ++ fs) = valuesList I es ++ valuesList I fs := by
  induction es with
  | nil => rfl
  | cons e rest ih => rw [List.cons_append, valuesList_cons, valuesList_cons, ih, List.append_assoc]

/-- The arguments of a call have the values of its content. -/
theorem valuesList_asArguments (e : Expression) : valuesList I e.asArguments = e.values I := by
  by_cases list : e.isList = true
  · obtain ⟨operation, left, right⟩ := e
    cases operation <;> simp_all [isList, Expression.asArguments]
  · rw [Grammar.asArguments_of_not_list (by simpa using list), valuesList_cons, valuesList_nil, List.append_nil]

theorem values_snoc (e f : Expression) : (arguments (e.asArguments ++ [f])).values I = e.values I ++ f.values I := by
  rw [arguments, values_of_arguments, valuesList_append, valuesList_asArguments, valuesList_cons, valuesList_nil,
    List.append_nil]

theorem values_binary (regular : c.Regular) (known : c.operator? o.symbol = some entry) (left : a.values I = [x])
    (right : b.values I = [y]) : values I ⟨.reference entry, some a, some b⟩ = [I.binary o x y] := by
  obtain ⟨kind, -, symbol⟩ := regular.of_sign known
  simp [left, right, Interpretation.node, Interpretation.between, kind, symbol,
    Operator.ofSymbol?_symbol]

theorem values_negation (regular : c.Regular) (known : c.operator? "-" = some entry) (operand : a.values I = [x]) :
    values I ⟨.reference entry, none, some a⟩ = [I.negate x] := by
  obtain ⟨kind, -, -⟩ := regular.of_sign (o := .minus) known
  simp [operand, Interpretation.node, Interpretation.between, kind]

theorem values_factorial (regular : c.Regular) (known : c.operator? "!" = some entry) (operand : a.values I = [x]) :
    values I ⟨.reference entry, some a, none⟩ = [I.factorial x] := by
  obtain ⟨kind, -, -⟩ := regular.of_bang known
  simp [operand, Interpretation.node, kind, Interpretation.times]

theorem values_constant (nullary : entry.kind = .nullary) : (reference entry).values I = [I.constant entry.name] := by
  simp [reference, Interpretation.node, nullary, Interpretation.apply]

theorem values_call (kind : entry.kind = .unary ∨ entry.kind = .variadic ∨ entry.kind = .nullary) :
    ((reference entry).withRight e).values I = [I.apply entry (e.values I)] := by
  rcases kind with kind | kind | kind <;>
    simp [reference, withRight, Interpretation.node, kind]

theorem values_emptyCall (kind : entry.kind = .unary ∨ entry.kind = .variadic ∨ entry.kind = .nullary) :
    (emptyCall entry).values I = [I.apply entry []] := by
  unfold emptyCall
  split
  · next nullary =>
    rw [values_constant nullary]
    simp only [Interpretation.apply, nullary]
  · rw [values_call kind, arguments, values_of_arguments, valuesList_nil]

/-- An operand on the free right side of a node is a factor. -/
theorem values_withRight (shaped : a.WellShaped) (single : a.isList = false) (free : a.right = none)
    (left : a.values I = [x]) (right : b.values I = [y]) : (a.withRight b).values I = [I.binary .star x y] := by
  obtain ⟨operation, l, r⟩ := a
  obtain rfl : r = none := free
  have operands := shaped.operands
  cases operation with
  | literal value =>
    obtain rfl : I.literal value = x := by simpa [Interpretation.times] using left
    simp [withRight, right, Interpretation.times]
  | reference entry =>
    simp only [HasOperands] at operands
    simp only [values_of_reference, valuesOption_none, Interpretation.node] at left
    simp only [withRight, values_of_reference, valuesOption_some, right, Interpretation.node]
    cases kind : entry.kind <;> simp only [kind] at operands left
    · simp at operands
    · simp at operands
    · simp at operands
    · obtain ⟨z, same, rfl⟩ := List.map_eq_singleton_iff.1 left
      rw [same]
      rfl
    · obtain rfl := List.singleton_inj.1 left
      simp [Interpretation.apply, kind]
  | arguments items => cases single
  | bare => exact operands.elim
  | boundary => exact operands.elim

/-- Operands side by side are factors. -/
theorem values_beside (regular : c.Regular) {star : Entry} (known : c.operator? "*" = some star) (wf : a.WellFormed)
    (left : a.values I = [x]) (right : b.values I = [y]) : (a.beside star b).values I = [I.binary .star x y] := by
  unfold beside
  split
  · exact values_binary (o := .star) regular known left right
  · next free => exact values_withRight wf.shaped wf.root (by simpa using free) left right

end Expression

end Reckoner
