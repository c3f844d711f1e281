import Reckoner.Proofs.Calculator.Parse
import Reckoner.Proofs.Evaluation.Whole
import Reckoner.Proofs.Grammar.Exact
import Reckoner.Proofs.Grammar.References

/-!
# Trees that can be evaluated

What a rule evaluates depends on its kind, and an operand that is not there or that is
an argument list has no value. `Evaluable` lists the nodes at which that does not
happen: the shape of the tree, the kind of the operation and its rule agree. So
they do in every well-formed tree that refers to the operations of a regular catalog.
-/

namespace Reckoner.Expression

/-- Every rule in the tree finds the operands that it evaluates. -/
inductive Evaluable : Expression → Prop where
  | literal {value right} (factor : ∀ r ∈ right, Evaluable r) : Evaluable ⟨.literal value, none, right⟩
  | binary {entry a b} (o : Operator) (kind : entry.kind = .binary) (rule : entry.rule = o.rule) (left : Evaluable a)
      (right : Evaluable b) : Evaluable ⟨.reference entry, some a, some b⟩
  | negation {entry a} (kind : entry.kind = .binary) (rule : entry.rule = .subtract) (operand : Evaluable a) :
      Evaluable ⟨.reference entry, none, some a⟩
  | factorial {entry a right} (kind : entry.kind = .suffix) (rule : entry.rule = .factorial) (operand : Evaluable a)
      (factor : ∀ r ∈ right, Evaluable r) : Evaluable ⟨.reference entry, some a, right⟩
  | constant {entry right} (kind : entry.kind = .nullary) (callable : entry.Callable) (factor : ∀ r ∈ right, Evaluable r) :
      Evaluable ⟨.reference entry, none, right⟩
  /-- A constant refuses a list before anything in it is evaluated. -/
  | refusal {entry list} (kind : entry.kind = .nullary) (several : list.isList = true) :
      Evaluable ⟨.reference entry, none, some list⟩
  | call {entry a} (kind : entry.kind = .unary ∨ entry.kind = .variadic) (callable : entry.Callable)
      (argument : Evaluable a) : Evaluable ⟨.reference entry, none, some a⟩
  | callList {entry items} (kind : entry.kind = .unary ∨ entry.kind = .variadic) (callable : entry.Callable)
      (length : items.length ≠ 1) (each : ∀ item ∈ items, Evaluable item) :
      Evaluable ⟨.reference entry, none, some (arguments items)⟩

/-- What may stand on the right of a name: one tree, or a list of any number but one. -/
inductive Supplied : Expression → Prop where
  | single {e} (h : Evaluable e) : Supplied e
  | list {items} (length : items.length ≠ 1) (each : ∀ item ∈ items, Evaluable item) : Supplied (arguments items)

variable {e : Expression} {entry : Entry} {left right : Option Expression}

theorem Evaluable.single (h : e.Evaluable) : e.isList = false := by
  cases h <;> rfl

theorem Supplied.evaluable (h : e.Supplied) (single : e.isList = false) : e.Evaluable := by
  cases h with
  | single h => exact h
  | list => cases single

/-- An argument list stands behind names only. -/
theorem WellShaped.right_single {r : Expression} (shaped : e.WellShaped)
    (other : ∀ entry, e.operation = .reference entry → entry.kind = .binary ∨ entry.kind = .suffix)
    (there : e.right = some r) : r.isList = false := by
  by_contra list
  obtain ⟨entry, operation, kinds⟩ := shaped.right r there (by simpa using list)
  rcases other entry operation with kind | kind <;> simp [kind] at kinds

/-- A minus sign is the only one that may lack its left operand. -/
theorem Evaluable.operator {o : Operator} {b : Expression} (kind : entry.kind = .binary) (rule : entry.rule = o.rule)
    (symbol : entry.symbol = some o.symbol) (negates : left = none → entry.symbol = some "-")
    (hl : ∀ l ∈ left, l.Evaluable) (hb : b.Evaluable) : Evaluable ⟨.reference entry, left, some b⟩ := by
  cases left with
  | some a => exact .binary o kind rule (hl a rfl) hb
  | none =>
    have sign : some o.symbol = some "-" := symbol.symm.trans (negates rfl)
    have minus : o = .minus := by cases o <;> simp [Operator.symbol] at sign ⊢
    subst minus
    exact .negation kind rule hb

theorem Evaluable.named (callable : entry.Callable) (hr : ∀ r ∈ right, r.Supplied)
    (called : entry.kind ≠ .nullary → right.isSome = true) : Evaluable ⟨.reference entry, none, right⟩ := by
  by_cases nullary : entry.kind = .nullary
  · by_cases several : ∃ list ∈ right, list.isList = true
    · obtain ⟨list, rfl, several⟩ := several
      exact .refusal nullary several
    · refine .constant nullary callable fun r member => (hr r member).evaluable ?_
      by_contra list
      exact several ⟨r, member, by simpa using list⟩
  · obtain ⟨r, rfl⟩ := Option.isSome_iff_exists.1 (called nullary)
    have kind : entry.kind = .unary ∨ entry.kind = .variadic := by simpa [nullary] using callable.kind
    cases hr r rfl with
    | single h => exact .call kind callable h
    | list length each => exact .callList kind callable length each

/-- A shaped reference to a genuine operation can be evaluated if its operands can. -/
theorem Evaluable.reference (genuine : entry.Genuine) (shaped : WellShaped ⟨.reference entry, left, right⟩)
    (hl : ∀ l ∈ left, l.Evaluable) (hr : ∀ r ∈ right, r.Supplied) : Evaluable ⟨.reference entry, left, right⟩ := by
  have factor (kind : entry.kind = .binary ∨ entry.kind = .suffix) : ∀ r ∈ right, r.Evaluable := by
    intro r there
    refine (hr r there).evaluable (shaped.right_single ?_ there)
    rintro _ ⟨⟩
    exact kind
  have operands := shaped.operands
  unfold HasOperands at operands
  cases genuine with
  | sign o kind rule symbol =>
    simp only [kind, Option.isSome_iff_exists] at operands
    obtain ⟨⟨b, rfl⟩, negates⟩ := operands
    exact .operator kind rule symbol negates hl (factor (.inl kind) b rfl)
  | bang kind rule =>
    simp only [kind, Option.isSome_iff_exists] at operands
    obtain ⟨a, rfl⟩ := operands
    exact .factorial kind rule (hl a rfl) (factor (.inr kind))
  | named callable =>
    rcases callable.kind with kind | kind | kind
    all_goals simp only [kind] at operands
    · obtain ⟨rfl, called⟩ := operands
      exact .named callable hr fun _ => called
    · obtain ⟨rfl, called⟩ := operands
      exact .named callable hr fun _ => called
    · subst operands
      exact .named callable hr fun other => absurd kind other

/-- The shape of a list of arguments makes it nothing else. -/
theorem WellShaped.eq_arguments (shaped : e.WellShaped) (list : e.isList = true) :
    ∃ items, e = arguments items ∧ items.length ≠ 1 ∧ ∀ item ∈ items, item.isList = false := by
  obtain ⟨operation, left, right⟩ := e
  cases operation with
  | arguments items =>
    obtain ⟨rfl, rfl, length, single⟩ := shaped.operands
    exact ⟨items, rfl, length, single⟩
  | _ => cases list

/-- A well-formed tree that refers to genuine operations only can be evaluated. -/
theorem WellFormed.evaluable (wf : e.WellFormed) (genuine : e.Genuine) : e.Evaluable := by
  -- On the depth, not on the tree: the items of an argument list are two levels down, and the list itself
  -- cannot be evaluated.
  induction same : e.depth using Nat.strongRecOn generalizing e with
  | ind d ih =>
    have below {a : Expression} (less : a.depth < d) (nodes : ∀ n ∈ a.nodes, n.WellShaped) (genuine : a.Genuine)
        (single : a.isList = false) : a.Evaluable := ih a.depth less ⟨nodes, single⟩ genuine rfl
    have shaped := wf.shaped
    have nodes := (forall_nodes.1 wf.nodes).2
    obtain ⟨operation, left, right⟩ := e
    have hl : ∀ l ∈ left, l.Evaluable := by
      intro l there
      have member : l ∈ children ⟨operation, left, right⟩ := left_mem_children there
      exact below (same ▸ depth_lt member) (nodes l member) (genuine.child member) (shaped.left l there)
    have hr : ∀ r ∈ right, r.Supplied := by
      intro r there
      have member : r ∈ children ⟨operation, left, right⟩ := right_mem_children there
      have less : r.depth < d := same ▸ depth_lt member
      by_cases list : r.isList = true
      · obtain ⟨items, rfl, length, single⟩ := (forall_nodes.1 (nodes r member)).1.eq_arguments list
        refine .list length fun item inside => ?_
        have inner : item ∈ (arguments items).children := by simpa [children, arguments, Operation.items] using inside
        exact below ((depth_lt inner).trans less) ((forall_nodes.1 (nodes _ member)).2 item inner)
          ((genuine.child member).child inner) (single item inside)
      · have single : r.isList = false := by simpa using list
        exact .single (below less (nodes r member) (genuine.child member) single)
    cases operation with
    | literal value =>
      obtain rfl : left = none := shaped.operands
      refine .literal fun r there => (hr r there).evaluable (shaped.right_single ?_ there)
      rintro _ ⟨⟩
    | reference entry => exact .reference (genuine.root rfl) shaped hl hr
    | arguments items => cases wf.root
    | bare => exact shaped.operands.elim
    | boundary => exact shaped.operands.elim

end Reckoner.Expression

namespace Reckoner

/-- Whatever is read from a text with the standard operations and any constants can be evaluated. -/
theorem evaluable_of_parse {constants : List (String × Float)} {settings : Settings} {source : Option String}
    {root : Expression} (parsed : parse Catalog.standard constants settings source = .ok root) : root.Evaluable := by
  have regular := Catalog.regular_withConstants constants
  obtain ⟨_, tokens, -, -, -, -, -, built, -⟩ := parse_eq_ok_iff.1 parsed
  have phrase := (Grammar.expression_eq_ok_iff regular).1 built
  exact ((phrase.denotes regular).1 le_rfl).evaluable (phrase.genuine regular)

end Reckoner
