import Reckoner.Proofs.Stack.Calls

/-!
# Texts that can be completed

Tokens that have been read without an error are the beginning of an expression: one
number, where an operand is awaited, and the missing parentheses complete them. So a
text is refused as soon as nothing can complete it.
-/

namespace Reckoner.Grammar

open Assembly Expression

/-- A number if an operand has to begin behind the tokens, and a parenthesis for each open group. -/
def completion (position : Nat) (ts : List Token) : List Token :=
  (if AsksOperand ts then [⟨.number, "1", position⟩] else []) ++
    List.replicate (openGroups ts).length ⟨.closing, ")", position⟩

variable {c : Catalog} {next : Option TokenKind} {k l : Level} {ts us qs : List Token} {a : Assembly} {e : Expression}
  {S : List Piece} {G : List Opening} {o : Opening} {q : Token}

/-- A parenthesis makes the innermost group a part of the run in front of it, which is an operand one group further
out. -/
theorem Awaiting.leave (regular : c.Regular) (h : Awaiting c ts ⟨S, o :: G⟩ l) (operand : Phrase c true none k us e)
    (fits : l ≤ k) (closing : q.kind = .closing) :
    ∃ vs ws T r run, ts ++ us ++ [q] = vs ++ ws ∧ Awaiting c vs ⟨T, G⟩ r ∧ Phrase c true none .run ws run := by
  have inside : Phrase c true (some .closing) k us e := operand.follow fun _ => by decide
  obtain ⟨vs, ws, content, T, split, within, bounded, last, -⟩ := h.chain regular inside fits
  cases within with
  | pending => exact bounded.elim
  | @group vs T _ r before run t _ below running apart opening plain =>
    have element : Phrase c true none .element (t :: (ws ++ [q])) content := .group opening last closing
    obtain ⟨whole, phrase, -⟩ := Running.extend regular (by simpa [opening] using running) element
    exact ⟨vs, before ++ t :: (ws ++ [q]), T, r, whole, by simp [split], below, phrase⟩
  | @call vs T _ r before run entry t _ gs P es below callee opening call given =>
    have content := given.phrase regular last
    obtain ⟨whole, phrase, -⟩ := callee.applied regular none opening closing (.inr ⟨_, rfl, content, rfl⟩)
    exact ⟨vs, before ++ t :: (gs ++ ws ++ [q]), T, r, whole, by simp [split], below, phrase⟩

/-- An operand where one is awaited, and a parenthesis for each open group, complete the tokens. -/
theorem Awaiting.complete (regular : c.Regular) (h : Awaiting c ts ⟨S, G⟩ l) (operand : Phrase c true none k us e)
    (fits : l ≤ k) (closing : ∀ q ∈ qs, q.kind = .closing) (count : qs.length = G.length) :
    ∃ root, Phrase c true none .sum (ts ++ us ++ qs) root := by
  induction qs generalizing ts S G l k us e with
  | nil =>
    obtain ⟨vs, ws, content, T, split, within, bounded, whole, -⟩ := h.chain regular operand fits
    cases within with
    | start => exact ⟨content, by simpa [split] using whole⟩
    | pending => exact bounded.elim
    | group => cases count
    | call => cases count
  | cons q qs ih =>
    cases G with
    | nil => cases count
    | cons o G =>
      obtain ⟨vs, ws, T, r, run, split, below, phrase⟩ := h.leave regular operand fits (closing q List.mem_cons_self)
      obtain ⟨root, whole⟩ := ih below phrase (below.le_unary.trans (by decide))
        (fun q' mem => closing q' (List.mem_cons_of_mem q mem)) (Nat.succ.inj count)
      exact ⟨root, by rwa [← split, List.append_assoc _ [q], List.singleton_append] at whole⟩

/-- The number of a completion is an operand. -/
theorem Phrase.one (c : Catalog) (next : Option TokenKind) (position : Nat) :
    ∃ value, Phrase c true next .element [⟨.number, "1", position⟩] (.literal value) := by
  obtain ⟨value, read⟩ : ∃ value, Decimal.read? "1" = some value := ⟨_, rfl⟩
  exact ⟨value, .number rfl read⟩

/-- What has been read before any token that is no open parenthesis is completed. -/
theorem expression_completion (regular : c.Regular) (fed : Assembly.empty.feedAll c next ts = .ok a)
    (apart : next ≠ some .opening) (position : Nat) : ∃ root, c.expression (ts ++ completion position ts) = .ok root := by
  simp only [expression_eq_ok_iff regular]
  have count : (List.replicate (openGroups ts).length (⟨.closing, ")", position⟩ : Token)).length = a.groups.length := by
    rw [List.length_replicate, (groups_of_feedAll regular fed).length_eq]
  have closing : ∀ q ∈ List.replicate (openGroups ts).length (⟨.closing, ")", position⟩ : Token), q.kind = .closing :=
    fun q mem => by rw [List.eq_of_mem_replicate mem]
  cases reached_of_feedAll regular fed with
  | awaiting below =>
    obtain ⟨value, one⟩ := Phrase.one c none position
    obtain ⟨root, whole⟩ := below.complete regular one (below.le_unary.trans (by decide)) closing count
    exact ⟨root, by simpa [completion, below.asksOperand] using whole⟩
  | @operand _ vs S G l k us e below phrase fits =>
    have settled : ¬ AsksOperand (vs ++ us) := by
      rw [asksOperand_append phrase.ne_nil]
      exact phrase.not_asksOperand
    obtain ⟨root, whole⟩ := below.complete regular (phrase.follow fun _ => by decide) fits closing count
    exact ⟨root, by simpa [completion, settled] using whole⟩
  | callee => exact absurd rfl apart

/-- No completion begins with an open parenthesis. -/
theorem completion_head (position : Nat) (ts : List Token) :
    (completion position ts).head?.map Token.kind ≠ some .opening := by
  unfold completion
  split
  · simp
  · cases openGroups ts <;> simp [List.replicate_succ]

/-- Over the standard operations and any constants, all tokens that are read before the end of a text are completed
by the number 1, if an operand is awaited behind them, and a closing parenthesis for each open group. What is read
before a token of any kind has a completion that begins with an open parenthesis exactly if that kind is one, and what
has a completion is read before its first token. -/
theorem read_tokens_complete (constants : List (String × Float)) (tokens : List Token) :
    let c := Catalog.standard.withConstants constants
    (∀ a, Assembly.empty.feedAll c none tokens = .ok a →
      ∀ position, ∃ root, c.expression (tokens ++ completion position tokens) = .ok root) ∧
    (∀ next a, Assembly.empty.feedAll c next tokens = .ok a →
      ∃ more root, (more.head?.map Token.kind = some .opening ↔ next = some .opening) ∧
        c.expression (tokens ++ more) = .ok root) ∧
    ∀ more root, c.expression (tokens ++ more) = .ok root →
      ∃ a, Assembly.empty.feedAll c (more.head?.map Token.kind) tokens = .ok a := by
  intro c
  have regular : c.Regular := Catalog.regular_withConstants constants
  refine ⟨fun a fed => expression_completion regular fed (by simp), ?_, fun more root => feedAll_of_expression⟩
  intro next a fed
  by_cases opening : next = some .opening
  · -- Behind a callee nothing but its parenthesis may follow, and that one is read after any tokens.
    subst opening
    have opened : Assembly.empty.feedAll c none (tokens ++ [⟨.opening, "(", 0⟩]) =
        .ok (a.feedOpening ⟨.opening, "(", 0⟩) := by
      rw [feedAll_append, show ((([⟨.opening, "(", 0⟩] : List Token).head?.map Token.kind).or none) = some .opening from rfl,
        fed, Except.bind, feedAll_singleton, feed_opening rfl]
    obtain ⟨root, built⟩ := expression_completion regular opened (by simp) 0
    rw [List.append_assoc] at built
    exact ⟨_, root, by simp, built⟩
  · obtain ⟨root, built⟩ := expression_completion regular fed opening 0
    exact ⟨_, root, iff_of_false (completion_head 0 tokens) opening, built⟩

/-- The beginning `sin(2+` of a text is completed by `1)`. -/
theorem read_tokens_complete_call :
    let c := Catalog.standard.withConstants []
    let tokens : List Token :=
      [⟨.name, "sin", 0⟩, ⟨.opening, "(", 3⟩, ⟨.number, "2", 4⟩, ⟨.operator .plus, "+", 5⟩]
    (∃ a, Assembly.empty.feedAll c none tokens = .ok a) ∧
      completion 6 tokens = [⟨.number, "1", 6⟩, ⟨.closing, ")", 6⟩] ∧
      ∃ root, c.expression (tokens ++ completion 6 tokens) = .ok root := by
  intro c tokens
  obtain ⟨a, fed⟩ : ∃ a, Assembly.empty.feedAll c none tokens = .ok a := ⟨_, rfl⟩
  exact ⟨⟨a, fed⟩, by decide, (read_tokens_complete [] tokens).1 a fed 6⟩

end Reckoner.Grammar
