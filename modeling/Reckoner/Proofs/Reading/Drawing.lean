import Reckoner.Proofs.Calculator.Parse
import Reckoner.Proofs.Expression.Drawing
import Reckoner.Proofs.Reading.Rebuild

/-!
# What a drawing shows of a text's tree

The captions of the trees that are read are single lines, and they tell apart everything but the values of numbers:
names hold no blank, and an operator has one between its name and its sign. So a drawing has a line for each
node and stands for one tree, up to those values.
-/

namespace Reckoner

open Expression Grammar Text

/-- The six signs and the names of their operators. -/
def signNames : List (String × String) :=
  [("+", "add"), ("-", "subtract"), ("*", "multiply"), ("/", "divide"), ("^", "pow"), ("!", "factorial")]

/-- The caption of an operator, by its sign and its name. -/
def signCaption (sign : String × String) : String :=
  "Function(" ++ sign.2 ++ " " ++ sign.1 ++ ")"

variable {constants : List (String × Float)} {c : Catalog} {text text' symbol : String} {tokens tokens' : List Token}
  {t : Token} {entry entry' : Entry} {n n' : Expression} {left right left' right' : Option Expression}

theorem mem_signNames (sign : symbol ∈ operatorSigns)
    (known : (Catalog.standard.withConstants constants).operator? symbol = some entry) :
    (symbol, entry.name) ∈ signNames := by
  have all : ∀ s ∈ operatorSigns, ((Catalog.standard.operator? s).all fun e => decide ((s, e.name) ∈ signNames)) = true := by
    decide +kernel
  have here := all symbol sign
  rw [Catalog.operator?_withConstants] at known
  rw [known] at here
  simpa using here

theorem caption_of_sign (sign : symbol ∈ operatorSigns) (known : c.operator? symbol = some entry) :
    caption (.reference entry) = signCaption (symbol, entry.name) := by
  rw [caption, shownSymbol?_of_sign sign known]
  rfl

theorem caption_of_name {name : String} (known : c.lookup? name = some entry) :
    caption (.reference entry) = "Function(" ++ name ++ ")" := by
  rw [caption, shownSymbol?_of_name known, (Catalog.of_lookup? known).1]

/-- A name in a text holds no blank. -/
theorem not_isBlank_of_name (tokenized : tokenize text = .ok tokens) (token : t ∈ tokens) :
    ∀ ch ∈ t.text.toList, isBlank ch = false := by
  obtain ⟨first, rest, written, starts, continues⟩ := spells_of_tokenize tokenized token
  rw [written]
  intro ch there
  rcases List.mem_cons.1 there with rfl | later
  · exact Lexer.not_isBlank_of_starts starts
  · exact TokenKind.continues_not_isBlank (continues ch later)

/-- So a name is told from an operator. -/
theorem caption_of_name_ne {name : String} {sign : String × String} (listed : sign ∈ signNames)
    (unblank : ∀ ch ∈ name.toList, isBlank ch = false) : signCaption sign ≠ "Function(" ++ name ++ ")" := by
  have gaps : ∀ s ∈ signNames, ' ' ∈ (signCaption s).toList := by decide +kernel
  intro same
  have gap := gaps sign listed
  rw [same, String.toList_append, String.toList_append, List.mem_append, List.mem_append] at gap
  rcases gap with (first | inside) | last
  · exact absurd first (by decide)
  · exact absurd (unblank ' ' inside) (by decide)
  · exact absurd last (by decide)

/-- Captions tell operations apart. -/
theorem entry_eq_of_caption (tokenized : tokenize text = .ok tokens) (tokenized' : tokenize text' = .ok tokens')
    (origin : Origin (Catalog.standard.withConstants constants) tokens ⟨.reference entry, left, right⟩)
    (origin' : Origin (Catalog.standard.withConstants constants) tokens' ⟨.reference entry', left', right'⟩)
    (same : caption (.reference entry) = caption (.reference entry')) : entry = entry' := by
  have apart : ∀ s ∈ signNames, ∀ s' ∈ signNames, signCaption s = signCaption s' → s = s' := by decide +kernel
  cases origin with
  | sign sign known =>
    have listed := mem_signNames sign known
    rw [caption_of_sign sign known] at same
    cases origin' with
    | sign sign' known' =>
      rw [caption_of_sign sign' known'] at same
      obtain ⟨symbols, -⟩ := Prod.mk.inj (apart _ listed _ (mem_signNames sign' known') same)
      rw [symbols, known'] at known
      exact (Option.some.inj known).symm
    | name token' kind' known' =>
      rw [caption_of_name known'] at same
      exact absurd same (caption_of_name_ne listed (not_isBlank_of_name tokenized' token'))
  | name token kind known =>
    rw [caption_of_name known] at same
    cases origin' with
    | sign sign' known' =>
      rw [caption_of_sign sign' known'] at same
      exact absurd same.symm (caption_of_name_ne (mem_signNames sign' known') (not_isBlank_of_name tokenized token))
    | name token' kind' known' =>
      rw [caption_of_name known', String.append_left_inj, String.append_right_inj] at same
      rw [same, known'] at known
      exact (Option.some.inj known).symm

/-- Captions that are the same stand for the same operation, for numbers, or for lists. -/
theorem shownAlike_of_caption (tokenized : tokenize text = .ok tokens) (tokenized' : tokenize text' = .ok tokens')
    (origin : Origin (Catalog.standard.withConstants constants) tokens n)
    (origin' : Origin (Catalog.standard.withConstants constants) tokens' n')
    (same : caption n.operation = caption n'.operation) : ShownAlike n.operation n'.operation := by
  have initials := congrArg (fun text => text.toList.head?) same
  rw [head?_caption, head?_caption, Option.some_inj] at initials
  obtain ⟨operation, left, right⟩ := n
  obtain ⟨operation', left', right'⟩ := n'
  cases operation with
  | literal value =>
    cases operation' with
    | literal value' => exact .literal value value'
    | reference | arguments | bare | boundary => simp [initial] at initials
  | reference entry =>
    cases operation' with
    | reference entry' =>
      rw [entry_eq_of_caption tokenized tokenized' origin origin' same]
      exact .reference entry'
    | literal | arguments | bare | boundary => simp [initial] at initials
  | arguments items =>
    cases operation' with
    | arguments items' => exact .arguments items items'
    | literal | reference | bare | boundary => simp [initial] at initials
  | bare => cases origin
  | boundary => cases origin

/-- A caption takes one line. -/
theorem oneLine_caption (tokenized : tokenize text = .ok tokens)
    (origin : Origin (Catalog.standard.withConstants constants) tokens n) : OneLine (caption n.operation) := by
  have short : ∀ s ∈ signNames, OneLine (signCaption s) := by decide +kernel
  cases origin with
  | literal token kind read => exact .append (.append (by decide) (Decimal.oneLine_write _ _)) (by decide)
  | sign sign known =>
    rw [caption_of_sign sign known]
    exact short _ (mem_signNames sign known)
  | name token kind known =>
    have single : OneLine _ := fun feed => absurd (not_isBlank_of_name tokenized token '\n' feed) (by decide)
    rw [caption_of_name known]
    exact .append (.append (by decide) single) (by decide)
  | arguments => exact .append (.append (by decide) (.natural _)) (by decide)

/-- What is known of a tree that a text is read as. -/
theorem nodes_of_parse {settings : Settings} {source : Option String} {root : Expression}
    (read : parse .standard constants settings source = .ok root) :
    (∀ n ∈ root.nodes, n.WellShaped) ∧ ∃ text tokens, tokenize text = .ok tokens ∧
      ∀ n ∈ root.nodes, Origin (Catalog.standard.withConstants constants) tokens n := by
  have regular : (Catalog.standard.withConstants constants).Regular := Catalog.regular_withConstants constants
  obtain ⟨text, tokens, -, -, -, tokenized, -, built, -⟩ := parse_eq_ok_iff.1 read
  have denoted := (((expression_eq_ok_iff regular).1 built).denotes regular).1 le_rfl
  exact ⟨denoted.nodes, text, tokens, tokenized, fun n member => origin_of_expression regular built member⟩

/-- Over the standard operations and any constants, a drawing with an indent of blanks has a line for every node in
pre-order. It holds the place and the caption of the node behind an indent for each level above it, so the deepest line shows
the depth of the tree. Texts that are drawn alike have the same tree, up to what six digits do not show of the numbers. -/
theorem drawing_shows_tree (constants : List (String × Float)) (settings : Settings) (source : Option String)
    (root : Expression) (indent : String) (read : parse .standard constants settings source = .ok root)
    (blanks : IsIndent indent) :
    (root.preorder 1).map Prod.fst = root.nodes ∧
    List.Forall₂ (fun line x => IsLineOf indent line x ∧ leading line = (x.2 - 1) * indent.length)
      (textLines (root.drawing indent)) (root.preorder 1) ∧
    (textLines (root.drawing indent)).length = root.nodes.length ∧
    (∃ deepest, ((textLines (root.drawing indent)).map (indentation indent)).max? = some deepest ∧
      deepest + 1 = root.measuredDepth) ∧
    ∀ settings' source' root' indent', parse .standard constants settings' source' = .ok root' → IsIndent indent' →
      root.drawing indent = root'.drawing indent' → ∀ f, OfSixDigits f → root.mapValues f = root'.mapValues f := by
  obtain ⟨shaped, text, tokens, tokenized, origins⟩ := nodes_of_parse read
  have drawn := textLines_drawing blanks shaped fun n member => oneLine_caption tokenized (origins n member)
  have by_line : List.Forall₂ (IsLineOf indent) (root.lines indent 0 "") (root.preorder 1) := forall_lines shaped .root
  rw [drawn]
  refine ⟨map_fst_preorder 1 root, ?_, ?_, ?_, ?_⟩
  · exact by_line.imp fun line x at_line => ⟨at_line, at_line.leading blanks⟩
  · rw [by_line.length_eq, ← map_fst_preorder 1 root, List.length_map]
  · have some := depth_pos root
    refine ⟨_, max?_indentation blanks shaped, ?_⟩
    rw [measuredDepth_eq]
    omega
  · intro settings' source' root' indent' read' blanks' same f digits
    obtain ⟨shaped', text', tokens', tokenized', origins'⟩ := nodes_of_parse read'
    have drawn' := textLines_drawing blanks' shaped' fun n member => oneLine_caption tokenized' (origins' n member)
    rw [← same, drawn] at drawn'
    have lines := lines_eq_of_lines blanks blanks' shaped shaped' drawn'
    have captions : ∀ n ∈ root.nodes, ∀ n' ∈ root'.nodes, caption n.operation = caption n'.operation →
        ShownAlike n.operation n'.operation :=
      fun n inside n' inside' => shownAlike_of_caption tokenized tokenized' (origins n inside) (origins' n' inside')
    have low : Low indent 0 [] := by simp [Low]
    exact (readBack digits blanks shaped shaped' captions "" [] [] low low (congrArg (· ++ []) lines)).1

/-- A call with a constant that bears the name of an operator, drawn like one with another number. -/
theorem drawing_shows_tree_call :
    ∃ root root', parse .standard [("add", 5)] {} (some "max(1,add)") = .ok root ∧
      parse .standard [("add", 5)] {} (some "max(1.0000001, add)") = .ok root' ∧
      root.drawing "  " = "Function(max)\n  right: Arguments(2)\n    arg[0]: Literal(1)\n    arg[1]: Function(add)" ∧
      root.drawing "  " = root'.drawing "  " ∧ (textLines (root.drawing "  ")).length = root.nodes.length ∧
      root.mapValues (fun _ => 0) = root'.mapValues fun _ => 0 := by
  let c := Catalog.standard.withConstants [("add", 5)]
  let tokens : List Token := [⟨.name, "max", 0⟩, ⟨.opening, "(", 3⟩, ⟨.number, "1", 4⟩, ⟨.comma, ",", 5⟩,
    ⟨.name, "add", 6⟩, ⟨.closing, ")", 9⟩]
  let tokens' : List Token := [⟨.name, "max", 0⟩, ⟨.opening, "(", 3⟩, ⟨.number, "1.0000001", 4⟩, ⟨.comma, ",", 13⟩,
    ⟨.name, "add", 15⟩, ⟨.closing, ")", 18⟩]
  have tokenized : tokenize "max(1,add)" = .ok tokens := by decide +kernel
  have tokenized' : tokenize "max(1.0000001, add)" = .ok tokens' := by decide +kernel
  obtain ⟨root, root', built, built', shallow, shallow', drawn, same⟩ : ∃ root root', c.expression tokens = .ok root ∧
      c.expression tokens' = .ok root' ∧ root.measuredDepth ≤ 100 ∧ root'.measuredDepth ≤ 100 ∧
      root.drawing "  " = "Function(max)\n  right: Arguments(2)\n    arg[0]: Literal(1)\n    arg[1]: Function(add)" ∧
      root.drawing "  " = root'.drawing "  " :=
    ⟨_, _, rfl, rfl, by decide +kernel, by decide +kernel, by decide +kernel, by decide +kernel⟩
  have read : parse .standard [("add", 5)] {} (some "max(1,add)") = .ok root :=
    parse_eq_ok_iff.2 ⟨_, tokens, rfl, by decide, by decide, tokenized, by simp [tokens], built, shallow⟩
  have read' : parse .standard [("add", 5)] {} (some "max(1.0000001, add)") = .ok root' :=
    parse_eq_ok_iff.2 ⟨_, tokens', rfl, by decide, by decide, tokenized', by simp [tokens'], built', shallow'⟩
  have blanks : IsIndent "  " := ⟨by simp, by decide⟩
  obtain ⟨-, -, long, -, determined⟩ := drawing_shows_tree [("add", 5)] {} _ root "  " read blanks
  exact ⟨root, root', read, read', drawn, same, long,
    determined {} _ root' "  " read' blanks same _ fun _ _ _ => rfl⟩

end Reckoner
