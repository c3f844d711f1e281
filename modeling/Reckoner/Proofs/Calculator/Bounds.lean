import Reckoner.Proofs.Grammar.Exact
import Reckoner.Proofs.Stack.Growth
import Reckoner.Proofs.Stack.Refusals
import Reckoner.Proofs.Token.Places

/-!
# Trees are no larger than their texts

Every token makes a tree deeper by one level at most and larger by two nodes at most. So a tree is
refused for its depth only if the limit is below the number of tokens, of which a text has no
more than characters.
-/

namespace Reckoner

open Expression

variable {catalog : Catalog} {a b : Assembly} {tokens : List Token} {root : Expression} {text : String}

/-- Nothing is left of an assembly that has been finished. -/
theorem Assembly.finish_empty (finished : a.finish = .ok (root, b)) : b = .empty := by
  unfold finish at finished
  split at finished
  · cases finished
  · split at finished
    · cases finished
      rfl
    · cases finished
    · cases finished

/-- A parser that has refused nothing starts every time without pieces, over any catalog. -/
theorem Grammar.Unbroken.empty (unbroken : Unbroken catalog a) : a = .empty := by
  cases unbroken with
  | fresh => rfl
  | build _ built =>
    obtain ⟨_, _, finished⟩ := bind_eq_ok.1 built
    exact Assembly.finish_empty finished

theorem build_of_expression (built : catalog.expression tokens = .ok root) :
    ∃ b, Assembly.empty.build catalog tokens = .ok (root, b) := by
  unfold Catalog.expression at built
  split at built
  · next result =>
    cases built
    exact ⟨_, result⟩
  · cases built

/-- The tree of some tokens has no more levels than there are tokens, and less than two nodes for each. -/
theorem bounds_of_build (unbroken : Grammar.Unbroken catalog a) (built : a.build catalog tokens = .ok (root, b)) :
    root.measuredDepth ≤ tokens.length ∧ root.nodes.length < 2 * tokens.length := by
  rw [unbroken.empty] at built
  have deep : root.depth ≤ 0 + 1 * tokens.length := gauge_depth.build built
  have large : root.size + 1 ≤ 0 + 2 * tokens.length := gauge_size.build built
  rw [measuredDepth_eq, length_nodes]
  omega

theorem length_tokens_le (words : List Word) (position : Nat) :
    (Word.tokens position words).length ≤ (words.flatMap Word.written).length := by
  induction words generalizing position with
  | nil => exact Nat.le_refl _
  | cons w rest ih =>
    have filled := List.length_pos_iff.2 w.spelled.ne_nil
    have later := ih (position + w.written.length)
    rw [Word.tokens, List.length_cons, List.flatMap_cons, List.length_append]
    simp only [Word.written, List.length_append] at later ⊢
    omega

/-- A text has no more tokens than characters. -/
theorem length_tokenize_le (tokenized : tokenize text = .ok tokens) : tokens.length ≤ text.length := by
  obtain ⟨layout, rfl, rfl⟩ := exists_layout tokenized
  have words := length_tokens_le layout.words layout.lead.length
  rw [Layout.tokens, Layout.text, String.length_ofList, List.length_append]
  omega

/-- The tokens of a text are never refused for a limit of the calculator. -/
theorem not_limit_of_refused {cause : ParseError} (refused : catalog.expression tokens = .error cause) : ¬ cause.Limit := by
  have unplaced (cause : ParseError) (h : cause.Unplaced) : ¬ cause.Limit := by
    cases cause <;> simp_all [ParseError.Unplaced, ParseError.Limit]
  rcases Grammar.refusal_cases refused with ⟨_, t, _, a, failure, _, _, failed, rfl⟩ | ⟨a, failure, _, failed, rfl⟩
  · have placed := Assembly.refusedAt_feed failed
    generalize failure.cause = cause at placed
    cases placed with
    | nowhere h => exact unplaced _ h
    | token | comma | closing | unmatched | empty => exact id
  · rcases Grammar.finish_error failed with h | ⟨o, _, unclosed⟩
    · exact unplaced _ h
    · rw [unclosed]
      exact id

/-- A tree that is refused for its depth has been built, and is deeper than the limit. -/
theorem tooDeep_of_parse {constants : List (String × Float)} {settings : Settings} {depth limit : Nat}
    (refused : parse catalog constants settings (some text) = .error (.expressionTooDeep depth limit)) :
    ∃ tokens root, tokenize text = .ok tokens ∧ (catalog.withConstants constants).expression tokens = .ok root ∧
      depth = root.measuredDepth ∧ limit = settings.maxDepth ∧ limit < depth := by
  rw [parse_some] at refused
  split at refused
  · cases refused
  split at refused
  · cases refused
  cases tokenized : tokenize text with
  | error cause =>
    rw [tokenized] at refused
    cases refused
    obtain ⟨_, _, _, _, _, foreign⟩ := readsAt_of_refused tokenized
    cases foreign
  | ok tokens =>
    rw [tokenized, Except.bind] at refused
    split at refused
    · cases refused
    · cases built : (catalog.withConstants constants).expression tokens with
      | error cause =>
        rw [built] at refused
        cases refused
        exact (not_limit_of_refused built trivial).elim
      | ok root =>
        rw [built, Except.bind] at refused
        split at refused
        · next deep =>
          cases refused
          exact ⟨tokens, root, rfl, built, rfl, rfl, deep⟩
        · cases refused

/-- A parser that has refused nothing builds a tree whose depth is at most the number of the tokens, and whose nodes, those
of products and argument lists that no token stands for included, are less than twice as many. So
a text can be refused for the depth of its tree only if it has more tokens than the limit says, and its tokens are
no more than its characters. -/
theorem parse_bounded (catalog : Catalog) :
    (∀ a tokens root b, Grammar.Unbroken catalog a → a.build catalog tokens = .ok (root, b) →
      root.measuredDepth ≤ tokens.length ∧ root.nodes.length < 2 * tokens.length) ∧
    ∀ constants settings source depth limit,
      parse catalog constants settings source = .error (.expressionTooDeep depth limit) →
        ∃ text tokens, source = some text ∧ tokenize text = .ok tokens ∧ limit = settings.maxDepth ∧
          settings.maxDepth < tokens.length ∧ depth ≤ tokens.length ∧ tokens.length ≤ text.length := by
  constructor
  · intro a tokens root b unbroken built
    exact bounds_of_build unbroken built
  · intro constants settings source depth limit refused
    cases source with
    | none => cases refused
    | some text =>
      obtain ⟨tokens, root, tokenized, built, rfl, rfl, deep⟩ := tooDeep_of_parse refused
      obtain ⟨b, built⟩ := build_of_expression built
      have bounds := bounds_of_build .fresh built
      have few := length_tokenize_le tokenized
      exact ⟨text, tokens, rfl, tokenized, rfl, by omega, bounds.1, few⟩

/-- The tree of `2 pi 3` has as many levels as the text has tokens, and a node more than there are. -/
theorem parse_bounded_factors :
    let tokens : List Token := [⟨.number, "2", 0⟩, ⟨.name, "pi", 2⟩, ⟨.number, "3", 5⟩]
    (∃ root, Assembly.empty.build .standard tokens = .ok (root, .empty) ∧ root.measuredDepth = 3 ∧ root.nodes.length = 4 ∧
      root.measuredDepth ≤ tokens.length ∧ root.nodes.length < 2 * tokens.length) ∧
    parse .standard [] { maxDepth := 2 } (some "2 pi 3") = .error (.expressionTooDeep 3 2) ∧
      ∃ text tokens, some "2 pi 3" = some text ∧ tokenize text = .ok tokens ∧ 2 < tokens.length ∧ 3 ≤ tokens.length ∧
        tokens.length ≤ text.length := by
  intro tokens
  have tokenized : tokenize "2 pi 3" = .ok tokens := by decide +kernel
  obtain ⟨root, built, deep, large⟩ : ∃ root, Assembly.empty.build .standard tokens = .ok (root, .empty) ∧
      root.measuredDepth = 3 ∧ root.nodes.length = 4 := ⟨_, rfl, by decide +kernel, rfl⟩
  have read : (Catalog.standard.withConstants []).expression tokens = .ok root := by
    have same : Assembly.empty.build (Catalog.standard.withConstants []) tokens = .ok (root, .empty) := built
    rw [Catalog.expression, same]
  have refused : parse .standard [] { maxDepth := 2 } (some "2 pi 3") = .error (.expressionTooDeep 3 2) := by
    rw [parse_some, if_neg (by decide), if_neg (by decide), tokenized, Except.bind, if_neg (by decide), read, Except.bind,
      if_pos (by rw [deep]; decide), deep]
  obtain ⟨trees, texts⟩ := parse_bounded .standard
  have bounds := trees _ _ _ _ .fresh built
  obtain ⟨text, found, same, tokenized', -, more, deep', few⟩ := texts _ _ _ _ _ refused
  exact ⟨⟨root, built, deep, large, bounds.1, bounds.2⟩, refused, text, found, same, tokenized', more, deep', few⟩

end Reckoner
