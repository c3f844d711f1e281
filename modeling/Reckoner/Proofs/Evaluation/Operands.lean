import Reckoner.Proofs.Decimal.Positional
import Reckoner.Proofs.Evaluation.Chains

/-!
# Operands of chains

Numerals, calls and factorials as runs that have a value, and the texts that they are written with. A `Cut` is such
a text with its words and bounds on the numbers of both; a sign stands apart from every word beside it, and so two cuts
with a sign between them are a cut.
-/

namespace Reckoner

open Grammar Expression

variable {c : Catalog} {n : Nat} {ws us vs : List Word} {entry : Entry} {body : List Char}

section Runs

theorem Decimal.Numeral.spells (h : Decimal.Numeral body) : TokenKind.number.Spells (String.ofList body).toList := by
  obtain ⟨plain, ⟨digit, member, -⟩, -⟩ := h
  rw [String.toList_ofList]
  cases body with
  | nil => cases member
  | cons ch rest =>
    have starts (d : Char) (inside : d ∈ ch :: rest) : Decimal.numerals.contains d = true := by
      rw [← Lexer.isNumeral_eq]
      exact plain d inside
    exact ⟨ch, rest, rfl, starts ch List.mem_cons_self, fun d later => starts d (List.mem_cons_of_mem ch later)⟩

/-- A numeral as a word. -/
def Decimal.Numeral.word (h : Decimal.Numeral body) : Word :=
  .tight .number (String.ofList body) h.spells

theorem Decimal.Numeral.exists_read (h : Decimal.Numeral body) : ∃ value, Decimal.read? (String.ofList body) = some value := by
  obtain ⟨plain, form⟩ := h
  rw [← Option.isSome_iff_exists, Decimal.Plain.read?_eq (by rwa [String.toList_ofList]), String.toList_ofList]
  exact (Decimal.unsigned?_isSome plain).2 form

theorem Valued.numeral (c : Catalog) (h : Decimal.Numeral body) : Valued c .element [h.word] := by
  obtain ⟨value, read⟩ := h.exists_read
  refine ⟨.literal value, forall_nodes.2 ⟨unfailing_of_no_entry rfl, ?_⟩, fun position => .number rfl read⟩
  intro child member
  cases member

/-- A number that has a factorial, and the sign behind it. -/
theorem Valued.factorial (regular : c.Regular) (h : Decimal.Numeral body) {value : Float}
    (read : Decimal.read? (String.ofList body) = some value) (has : Number.lacksFactorial value = false) :
    Valued c .run [h.word, .mark .bang rfl] := by
  obtain ⟨entry, known, kind, -⟩ := regular.bang
  refine ⟨⟨.reference entry, some (.literal value), none⟩, forall_nodes.2 ⟨unfailing_factorial kind has, ?_⟩, fun position => ?_⟩
  · intro child member
    obtain rfl : child = .literal value := by simpa [children, Operation.items] using member
    refine forall_nodes.2 ⟨unfailing_of_no_entry rfl, ?_⟩
    intro child member
    cases member
  · have number : Phrase c true (some .bang) .run (Word.tokens position [h.word]) (.literal value) :=
      Phrase.loosen (.number rfl read) (by decide)
    exact .factorial number rfl known

/-- The words are arguments of a call, `n` of them. -/
def Arguments (c : Catalog) (n : Nat) (ws : List Word) : Prop :=
  ∃ e : Expression, (∀ m ∈ e.nodes, m.Unfailing) ∧ e.argumentCount = n ∧
    ∀ position, Phrase c true none .arguments (Word.tokens position ws) e

namespace Arguments

theorem single (regular : c.Regular) (h : Valued c .sum ws) : Arguments c 1 ws := by
  obtain ⟨e, unfailing, phrase⟩ := h
  have root := (((phrase 0).denotes regular).1 le_rfl).root
  refine ⟨e, unfailing, ?_, fun position => (phrase position).loosen (by decide)⟩
  rw [argumentCount_eq, asArguments_of_not_list root, List.length_singleton]

theorem snoc (h : Arguments c n us) (last : Valued c .sum vs) : Arguments c (n + 1) (us ++ .mark .comma rfl :: vs) := by
  obtain ⟨a, unfailing_a, count, phrase_a⟩ := h
  obtain ⟨b, unfailing_b, phrase_b⟩ := last
  refine ⟨.arguments (a.asArguments ++ [b]), forall_nodes.2 ⟨unfailing_of_no_entry rfl, ?_⟩, ?_, fun position => ?_⟩
  · intro child member
    have listed : child ∈ a.asArguments ∨ child = b := by
      simpa [children, Expression.arguments, Operation.items] using member
    rcases listed with inside | rfl
    · unfold asArguments at inside
      split at inside
      · next items operation =>
        exact (forall_nodes.1 unfailing_a).2 child (by simp [children, operation, Operation.items, inside])
      · rw [List.mem_singleton.1 inside]
        exact unfailing_a
    · exact unfailing_b
  · rw [argumentCount_eq] at count
    rw [← count]
    exact List.length_append
  · rw [Word.tokens_append]
    exact .argument ((phrase_a position).follow fun _ => by simp) rfl (phrase_b _)

/-- A call of as many arguments as its arity admits. -/
theorem call (h : Arguments c n us) {name : String} (spelled : TokenKind.name.Spells name.toList)
    (known : c.lookup? name = some entry) (kind : entry.kind = .unary ∨ entry.kind = .variadic)
    (admitted : entry.arity.admits n = true) :
    Valued c .element (.tight .name name spelled :: .mark .opening rfl :: (us ++ [.mark .closing rfl])) := by
  obtain ⟨e, unfailing, rfl, phrase⟩ := h
  refine ⟨(reference entry).withRight e, forall_nodes.2 ⟨unfailing_call kind admitted, ?_⟩, fun position => ?_⟩
  · intro child member
    obtain rfl : child = e := by simpa [children, reference, withRight, Operation.items] using member
    exact unfailing
  · rw [Word.tokens, Word.tokens, Word.tokens_append]
    exact .call rfl known rfl ((phrase _).follow fun _ => by simp) rfl

end Arguments

end Runs

/-- The text is written with the words and no gaps, and neither they nor its characters are too many. -/
structure Cut (words characters : Nat) (text : String) (ws : List Word) : Prop where
  written : ws.flatMap Word.written = text.toList
  apart : ws.IsChain Word.Apart
  few : ws.length ≤ words
  short : text.length ≤ characters

namespace Cut

variable {i j i' j' : Nat} {s t : String}

theorem empty : Cut 0 0 "" [] := ⟨rfl, .nil, Nat.le_refl 0, Nat.le_refl 0⟩

theorem word {kind : TokenKind} (spelled : kind.Spells s.toList) (short : s.length ≤ n) :
    Cut 1 n s [.tight kind s spelled] :=
  ⟨by simp [Word.tight, Word.written], List.isChain_singleton _, Nat.le_refl 1, short⟩

/-- A sign neither goes on with the word before it nor is continued by the one behind it. -/
theorem between (h : Cut i j s us) (kind : TokenKind) (sign : kind.sign?.isSome = true) (h' : Cut i' j' t vs) :
    Cut (i + 1 + i') (j + 1 + j') (s ++ ((Word.mark kind sign).text ++ t)) (us ++ .mark kind sign :: vs) where
  written := by
    rw [List.flatMap_append, List.flatMap_cons, h.written, h'.written]
    simp [Word.mark, Word.tight, Word.written, String.toList_append]
  apart := by
    have merges (other : TokenKind) : other.merges kind = false ∧ kind.merges other = false := by
      cases kind with
      | number | name => cases sign
      | _ => cases other <;> exact ⟨rfl, rfl⟩
    refine List.isChain_append.2 ⟨h.apart, List.isChain_cons.2 ⟨fun v _ _ => (merges v.kind).2, h'.apart⟩, ?_⟩
    intro u _ v same _
    cases same
    exact (merges u.kind).1
  few := by
    have few := h.few
    have few' := h'.few
    rw [List.length_append, List.length_cons]
    omega
  short := by
    have short := h.short
    have short' := h'.short
    have one : (Word.mark kind sign).text.length = 1 := String.length_singleton
    rw [String.length_append, String.length_append, one]
    omega

theorem mono (h : Cut i j s us) (few : i ≤ i') (short : j ≤ j') : Cut i' j' s us :=
  ⟨h.written, h.apart, h.few.trans few, h.short.trans short⟩

/-- What is written is read back. -/
theorem tokenize (h : Cut i j s us) : Reckoner.tokenize s = .ok (Word.tokens 0 us) := by
  rw [Reckoner.tokenize, ← h.written, Lexer.tokensFrom_words h.apart]

/-- Texts with a sign in front of each, written behind a text. If every one of them adds to `R`, all of them do. -/
theorem join {α : Type} {R : Nat → List Word → Prop} {mark : α → TokenKind} {text : α → String} {xs : List α}
    (sign : ∀ x, (mark x).sign?.isSome = true)
    (each : ∀ x ∈ xs, ∃ vs, Cut i' j' (text x) vs ∧ ∀ n us, R n us → R (n + 1) (us ++ .mark (mark x) (sign x) :: vs))
    (h : Cut i j s us) (start : R n us) :
    ∃ ws, Cut (i + (1 + i') * xs.length) (j + (1 + j') * xs.length)
      (s ++ .join (xs.map fun x => (Word.mark (mark x) (sign x)).text ++ text x)) ws ∧ R (n + xs.length) ws := by
  induction xs generalizing i j n s us with
  | nil => exact ⟨us, by simpa using h, start⟩
  | cons x xs ih =>
    obtain ⟨vs, cut, adds⟩ := each x List.mem_cons_self
    obtain ⟨ws, whole, related⟩ :=
      ih (fun y later => each y (List.mem_cons_of_mem x later)) (h.between _ (sign x) cut) (adds n us start)
    refine ⟨ws, ?_, ?_⟩
    · rw [List.map_cons, String.join_cons, ← String.append_assoc]
      refine whole.mono ?_ ?_ <;> rw [List.length_cons, Nat.mul_add, Nat.mul_one] <;> omega
    · rwa [List.length_cons, ← Nat.add_assoc, Nat.add_right_comm]

end Cut

end Reckoner
