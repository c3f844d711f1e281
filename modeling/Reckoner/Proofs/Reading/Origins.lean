import Reckoner.Proofs.Reading.Analysis
import Reckoner.Proofs.Stack.Agreement

/-!
# Where the nodes of a tree come from

Every node of a tree that has been built is the number of a token, an operation that the catalog has
for one of the six signs or for a name among the tokens, or an argument list, which has no operands.
-/

namespace Reckoner

open Expression Grammar

/-- What a node has to do with the catalog and the tokens that it is built from. -/
inductive Origin (c : Catalog) (tokens : List Token) : Expression → Prop where
  | literal {t value left right} (token : t ∈ tokens) (kind : t.kind = .number) (read : Decimal.read? t.text = some value) :
      Origin c tokens ⟨.literal value, left, right⟩
  | sign {symbol entry left right} (sign : symbol ∈ operatorSigns) (known : c.operator? symbol = some entry) :
      Origin c tokens ⟨.reference entry, left, right⟩
  | name {t entry left right} (token : t ∈ tokens) (kind : t.kind = .name) (known : c.lookup? t.text = some entry) :
      Origin c tokens ⟨.reference entry, left, right⟩
  | arguments {items} : Origin c tokens ⟨.arguments items, none, none⟩

variable {c : Catalog} {tokens : List Token} {root n : Expression} {entry : Entry} {left right : Option Expression}
  {value : Float}

theorem Token.mark?_eq_number (t : Token) :
    t.mark? = some (.number (some value)) ↔ t.kind = .number ∧ Decimal.read? t.text = some value := by
  cases kind : t.kind <;> simp [Token.mark?, kind]

/-- A reference without a sign is what the catalog has for a name among the tokens. -/
theorem origin_of_name (regular : c.Regular) (built : c.expression tokens = .ok root)
    (member : ⟨.reference entry, left, right⟩ ∈ root.nodes) (free : entry.symbol = none)
    (known : c.lookup? entry.name = some entry) : Origin c tokens ⟨.reference entry, left, right⟩ := by
  obtain ⟨t, token, kind, text, -⟩ := (named_nodes_iff (P := fun _ => True) regular built).1
    ⟨_, member, entry, rfl, free, rfl, trivial⟩
  rw [← text] at known
  exact .name token kind known

/-- Every node of the tree has an origin. -/
theorem origin_of_expression (regular : c.Regular) (built : c.expression tokens = .ok root) (member : n ∈ root.nodes) :
    Origin c tokens n := by
  have phrase := (expression_eq_ok_iff regular).1 built
  have shaped : n.WellShaped := ((phrase.denotes regular).1 le_rfl).nodes n member
  obtain ⟨operation, left, right⟩ := n
  cases operation with
  | literal value =>
    have shown : Mark.number (some value) ∈ root.marks := mem_marks_iff.2 ⟨_, member, rfl⟩
    obtain ⟨t, token, marked⟩ := (mem_marks_iff_written regular built rfl).1 shown
    obtain ⟨kind, read⟩ := t.mark?_eq_number.1 marked
    exact .literal token kind read
  | reference entry =>
    have refers : root.Refers fun entry => (∃ symbol ∈ operatorSigns, c.operator? symbol = some entry) ∨
        entry.symbol = none ∧ c.lookup? entry.name = some entry := by
      refine phrase.refers ?_ ?_ ?_
      · intro o entry known
        exact .inl ⟨o.symbol, o.symbol_mem_operatorSigns, known⟩
      · intro entry known
        exact .inl ⟨"!", by decide, known⟩
      · intro name entry known
        obtain ⟨same, free⟩ := Catalog.of_lookup? known
        exact .inr ⟨free, same ▸ known⟩
    rcases refers _ member entry rfl with ⟨symbol, sign, known⟩ | ⟨free, known⟩
    · exact .sign sign known
    · exact origin_of_name regular built member free known
  | arguments items =>
    obtain ⟨rfl, rfl, -⟩ := shaped.operands
    exact .arguments
  | bare => exact shaped.operands.elim
  | boundary => exact shaped.operands.elim

end Reckoner
