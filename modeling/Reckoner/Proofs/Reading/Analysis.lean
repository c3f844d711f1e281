import Reckoner.Proofs.Expression.Analysis
import Reckoner.Proofs.Grammar.References
import Reckoner.Proofs.Stack.Products

/-!
# What an analysis says of the text

An analysis of the tree that is built from a text reports what has been written there: how many
numbers, which names, told apart by what they are called for, and which signs. The product
sign alone can be reported without being written.
-/

namespace Reckoner

open Expression Grammar

/-- The symbol of an operator or of a factorial sign. -/
def Token.symbol? (t : Token) : Option String :=
  match t.kind with
  | .operator o => some o.symbol
  | .bang => some "!"
  | _ => none

variable {c : Catalog} {tokens : List Token} {root : Expression} {name symbol : String} {m : Mark}

theorem Token.mark?_eq_name (t : Token) : t.mark? = some (.name name) ↔ t.kind = .name ∧ t.text = name := by
  cases kind : t.kind <;> simp [Token.mark?, kind]

theorem Token.mark?_eq_sign (t : Token) : t.mark? = some (.sign symbol) ↔ t.symbol? = some symbol := by
  cases kind : t.kind <;> simp [Token.mark?, Token.symbol?, kind]

theorem Token.symbol?_eq_star (t : Token) : t.symbol? = some "*" ↔ t.kind = .operator .star := by
  cases kind : t.kind with
  | operator o => cases o <;> simp [Token.symbol?, kind, Operator.symbol]
  | _ => simp [Token.symbol?, kind]

theorem Token.isNumber_mark? (t : Token) : (t.mark?.map Mark.isNumber).getD false = (t.kind == .number) := by
  cases kind : t.kind <;> simp [Token.mark?, kind, Mark.isNumber]

/-- What is no product sign is shown exactly if it is written. -/
theorem mem_marks_iff_written (regular : c.Regular) (built : c.expression tokens = .ok root) (other : m.isStar = false) :
    m ∈ root.marks ↔ ∃ t ∈ tokens, t.mark? = some m := by
  have same := (((expression_eq_ok_iff regular).1 built).shown regular []).filter_eq
  have keeps (ms : List Mark) : m ∈ ms ↔ m ∈ ms.filter fun m => !m.isStar := by simp [other]
  rw [keeps, same, ← keeps, List.mem_filterMap]

theorem literals_of_expression (regular : c.Regular) (built : c.expression tokens = .ok root) :
    root.analyze.literals = tokens.countP fun t => t.kind == .number := by
  have same := (((expression_eq_ok_iff regular).1 built).shown regular []).filter_eq
  have keeps (ms : List Mark) : ms.countP Mark.isNumber = (ms.filter fun m => !m.isStar).countP Mark.isNumber := by
    rw [List.countP_filter]
    refine List.countP_congr fun m _ => ?_
    cases m <;> simp [Mark.isNumber, Mark.isStar]
  rw [literals_analyze, keeps, same, ← keeps, List.countP_filterMap]
  exact List.countP_congr fun t _ => by rw [t.isNumber_mark?]

/-- The nodes of operations with a name are those of the names that are written, as the catalog knows them. -/
theorem named_nodes_iff {P : Entry → Prop} (regular : c.Regular) (built : c.expression tokens = .ok root) :
    (∃ n ∈ root.nodes, ∃ entry, n.operation = .reference entry ∧ entry.symbol = none ∧ entry.name = name ∧ P entry) ↔
      ∃ t ∈ tokens, t.kind = .name ∧ t.text = name ∧ ∃ entry, c.lookup? name = some entry ∧ P entry := by
  have refers : root.Refers fun entry => entry.symbol = none → c.lookup? entry.name = some entry := by
    refine ((expression_eq_ok_iff regular).1 built).refers (fun o entry known free => ?_) (fun entry known free => ?_)
      fun name entry known _ => ?_
    · rw [Catalog.of_operator? known] at free
      cases free
    · rw [Catalog.of_operator? known] at free
      cases free
    · rwa [(Catalog.of_lookup? known).1]
  have written : Mark.name name ∈ root.marks ↔ ∃ t ∈ tokens, t.kind = .name ∧ t.text = name := by
    simp only [mem_marks_iff_written regular built (m := .name name) rfl, Token.mark?_eq_name]
  constructor
  · rintro ⟨n, member, entry, operation, free, rfl, holds⟩
    have shows : n.mark? = some (.name entry.name) := by simp [mark?, operation, Entry.mark, free]
    obtain ⟨t, token, kind, text⟩ := written.1 (mem_marks_iff.2 ⟨n, member, shows⟩)
    exact ⟨t, token, kind, text, entry, refers n member entry operation free, holds⟩
  · rintro ⟨t, token, kind, text, entry, known, holds⟩
    obtain ⟨n, member, shows⟩ := mem_marks_iff.1 (written.2 ⟨t, token, kind, text⟩)
    obtain ⟨entry', operation, free, same⟩ : ∃ entry', n.operation = .reference entry' ∧ entry'.symbol = none ∧
        entry'.name = name := by
      obtain ⟨operation, left, right⟩ := n
      cases operation with
      | reference entry' => cases own : entry'.symbol <;> simp_all [mark?, Entry.mark]
      | _ => simp [mark?] at shows
    have known' := refers n member entry' operation free
    rw [same, known] at known'
    cases known'
    exact ⟨n, member, entry, operation, free, same, holds⟩

/-- The analysis of what is built over the standard operations and any constants counts the number tokens, collects the
names that are written, those of functions apart from those of constants, and the symbols that are written. It adds
a product sign exactly if somewhere an operand stands beside a run whose node has a right operand already. -/
theorem analyze_of_expression (constants : List (String × Float)) {tokens : List Token} {root : Expression}
    (built : (Catalog.standard.withConstants constants).expression tokens = .ok root) :
    let c := Catalog.standard.withConstants constants
    root.analyze.literals = (tokens.countP fun t => t.kind == .number) ∧
    (∀ name, name ∈ root.analyze.functions ↔ ∃ t ∈ tokens, t.kind = .name ∧ t.text = name ∧
      ∃ entry, c.lookup? name = some entry ∧ (entry.kind = .unary ∨ entry.kind = .variadic)) ∧
    (∀ name, name ∈ root.analyze.constants ↔ ∃ t ∈ tokens, t.kind = .name ∧ t.text = name ∧
      ∃ entry, c.lookup? name = some entry ∧ entry.kind = .nullary) ∧
    ∀ symbol, symbol ∈ root.analyze.operators ↔
      (∃ t ∈ tokens, t.symbol? = some symbol) ∨ symbol = "*" ∧ Crowded c tokens := by
  intro c
  have regular : c.Regular := Catalog.regular_withConstants constants
  refine ⟨literals_of_expression regular built, fun name => ?_, fun name => ?_, fun symbol => ?_⟩
  · have called {entry : Entry} (known : c.lookup? name = some entry) :
        entry.kind ≠ .nullary ↔ entry.kind = .unary ∨ entry.kind = .variadic := by
      rcases (regular.named known).kind with kind | kind | kind <;> simp [kind]
    rw [mem_functions_analyze, named_nodes_iff regular built]
    simp only [← and_congr_right_iff.2 called]
  · rw [mem_constants_analyze, named_nodes_iff regular built]
  · rw [mem_operators_analyze]
    by_cases star : symbol = "*"
    · subst star
      simp only [star_mem_marks_iff regular built, HasProduct, Token.symbol?_eq_star, true_and]
    · have other : (Mark.sign symbol).isStar = false := by simpa [Mark.isStar] using star
      simp only [mem_marks_iff_written regular built other, Token.mark?_eq_sign, star, false_and, or_false]

/-- In `sin(pi)2` no sign is written, and the number crowds the call. -/
theorem analyze_of_expression_call :
    let c := Catalog.standard.withConstants []
    let tokens : List Token :=
      [⟨.name, "sin", 0⟩, ⟨.opening, "(", 3⟩, ⟨.name, "pi", 4⟩, ⟨.closing, ")", 6⟩, ⟨.number, "2", 7⟩]
    ∃ root, c.expression tokens = .ok root ∧ root.analyze.literals = 1 ∧ "sin" ∈ root.analyze.functions ∧
      "pi" ∈ root.analyze.constants ∧ root.analyze.operators = ["*"] ∧ Crowded c tokens := by
  intro c tokens
  obtain ⟨root, built, operators⟩ : ∃ root, c.expression tokens = .ok root ∧ root.analyze.operators = ["*"] := ⟨_, rfl, rfl⟩
  obtain ⟨literals, functions, constants, symbols⟩ := analyze_of_expression [] built
  refine ⟨root, built, literals, ?_, ?_, operators, ?_⟩
  · exact (functions "sin").2 ⟨⟨.name, "sin", 0⟩, by simp [tokens], rfl, rfl, _, rfl, .inl rfl⟩
  · exact (constants "pi").2 ⟨⟨.name, "pi", 4⟩, by simp [tokens], rfl, rfl, _, rfl, rfl⟩
  · have found : "*" ∈ root.analyze.operators := by simp [operators]
    have unwritten : ¬ ∃ t ∈ tokens, t.symbol? = some "*" := by decide
    exact (((symbols "*").1 found).resolve_left unwritten).2

end Reckoner
