import Mathlib.Algebra.Group.Int.Defs
import Reckoner.Proofs.Grammar.Exact
import Reckoner.Proofs.Grammar.Lone
import Reckoner.Proofs.Reading.Interpretation

/-!
# The textbook reading

`Reading` reads a token list the way it is taught: sums and products from left to
right, powers from right to left, factors without a sign between them from left to
right as one, and a factorial of all factors written so far. A name and its own call
group are one operand, and so are a lone constant and the group behind it. Reading
gives values at once and knows nothing of trees, in which additions group to the
right.
-/

namespace Reckoner

open Grammar Expression

namespace Operator

/-- What is read to the left of an operator. -/
def leftReading : Operator → Level
  | .plus | .minus => .sum
  | .star | .slash => .product
  | .caret => .run

/-- What is read to the right of it. -/
def rightReading : Operator → Level
  | .plus | .minus => .product
  | .star | .slash | .caret => .unary

/-- What the three are together. -/
def resultReading : Operator → Level
  | .plus | .minus => .sum
  | .star | .slash => .product
  | .caret => .power

end Operator

/-- `Reading I c next l ts xs`: before a token of the kind `next`, or at the end, the tokens `ts`
are read as a phrase of level `l` with the values `xs`, more than one only for arguments. -/
inductive Reading {α : Type u} (I : Interpretation α) (c : Catalog) :
    Option TokenKind → Level → List Token → List α → Prop where
  | loosen {next k l ts xs} (phrase : Reading I c next l ts xs) (le : k ≤ l) : Reading I c next k ts xs
  | argument {next ts t us xs y} (before : Reading I c (some .comma) .arguments ts xs) (comma : t.kind = .comma)
      (last : Reading I c next .sum us [y]) : Reading I c next .arguments (ts ++ t :: us) (xs ++ [y])
  | binary {next o ts t us x y} (left : Reading I c (some (.operator o)) o.leftReading ts [x])
      (sign : t.kind = .operator o) (right : Reading I c next o.rightReading us [y]) :
      Reading I c next o.resultReading (ts ++ t :: us) [I.binary o x y]
  | negation {next t ts x} (sign : t.kind = .operator .minus) (operand : Reading I c next .unary ts [x]) :
      Reading I c next .unary (t :: ts) [I.negate x]
  | factorial {next ts t x} (factors : Reading I c (some .bang) .run ts [x]) (sign : t.kind = .bang) :
      Reading I c next .run (ts ++ [t]) [I.factorial x]
  | juxtaposition {next ts us x y} (factors : Reading I c (us.head?.map Token.kind) .run ts [x])
      (factor : Reading I c next .element us [y]) : Reading I c next .run (ts ++ us) [I.binary .star x y]
  | number {next t value} (kind : t.kind = .number) (read : Decimal.read? t.text = some value) :
      Reading I c next .element [t] [I.literal value]
  | constant {next t entry} (kind : t.kind = .name) (known : c.lookup? t.text = some entry)
      (nullary : entry.kind = .nullary) (apart : next ≠ some .opening) :
      Reading I c next .element [t] [I.constant entry.name]
  | group {next o q ts x} (opening : o.kind = .opening) (content : Reading I c (some .closing) .sum ts [x])
      (closing : q.kind = .closing) : Reading I c next .element (o :: (ts ++ [q])) [x]
  | call {next n entry o q ts xs} (name : n.kind = .name) (known : c.lookup? n.text = some entry)
      (opening : o.kind = .opening) (content : Reading I c (some .closing) .arguments ts xs)
      (closing : q.kind = .closing) : Reading I c next .element (n :: o :: (ts ++ [q])) [I.apply entry xs]
  | emptyCall {next n entry o q} (name : n.kind = .name) (known : c.lookup? n.text = some entry)
      (opening : o.kind = .opening) (closing : q.kind = .closing) :
      Reading I c next .element [n, o, q] [I.apply entry []]
  | application {next ts entry o q us xs} (callee : Lone c ts entry) (opening : o.kind = .opening)
      (content : Reading I c (some .closing) .arguments us xs) (closing : q.kind = .closing) :
      Reading I c next .run (ts ++ o :: (us ++ [q])) [I.apply entry xs]
  | emptyApplication {next ts entry o q} (callee : Lone c ts entry) (opening : o.kind = .opening)
      (closing : q.kind = .closing) : Reading I c next .run (ts ++ [o, q]) [I.apply entry []]

variable {α : Type u} {I : Interpretation α} {c : Catalog} {next : Option TokenKind} {k l : Level} {ts us : List Token}
  {t : Token} {a b e : Expression} {entry : Entry} {o : Operator} {x y : α} {xs : List α}

namespace Reading

/-- From the level of sums on there is one value. -/
theorem single (h : Reading I c next l ts xs) (sum : .sum ≤ l) : ∃ x, xs = [x] := by
  induction h with
  | loosen _ le ih => exact ih (sum.trans le)
  | argument => exact absurd sum (by decide)
  | _ => exact ⟨_, rfl⟩

/-- A first summand may be read before the rest of a sum. -/
theorem prepend (regroups : I.Regroups) (left : Reading I c (some (.operator .plus)) .sum ts [x])
    (sign : t.kind = .operator .plus) (h : Reading I c next l us xs) (sum : .sum ≤ l) :
    ∀ y, xs = [y] → Reading I c next .sum (ts ++ t :: us) [I.binary .plus x y] := by
  have direct {next l us xs} (right : Reading I c next l us xs) (le : .product ≤ l) (y : α) (value : xs = [y]) :
      Reading I c next .sum (ts ++ t :: us) [I.binary .plus x y] := by
    subst value
    exact .binary (o := .plus) left sign (right.loosen le)
  have rest := h
  induction h with
  | loosen phrase le ih => exact ih (sum.trans le) phrase
  | argument => exact absurd sum (by decide)
  | @binary next o vs u us x' y' left' sign' right' ih _ =>
    -- A rest that is itself a sum or a difference is read behind the first summand.
    cases o with
    | plus =>
      rintro _ ⟨⟩
      have inner := ih (by decide) left' x' rfl
      have whole : Reading I c next .sum ((ts ++ t :: vs) ++ u :: us) [I.binary .plus (I.binary .plus x x') y'] :=
        .binary (o := .plus) inner sign' right'
      rw [regroups.plus, List.append_assoc] at whole
      exact whole
    | minus =>
      rintro _ ⟨⟩
      have inner := ih (by decide) left' x' rfl
      have whole : Reading I c next .sum ((ts ++ t :: vs) ++ u :: us) [I.binary .minus (I.binary .plus x x') y'] :=
        .binary (o := .minus) inner sign' right'
      rw [regroups.minus, List.append_assoc] at whole
      exact whole
    | star | slash | caret => exact direct rest (by decide)
  | _ => exact direct rest (by decide)

end Reading

/-- Chains of subtractions are sums in a text. -/
def Grammar.Level.reading : Level → Level
  | .chain => .sum
  | l => l

theorem Grammar.Level.reading_mono (le : k ≤ l) : k.reading ≤ l.reading := by
  revert le
  cases k <;> cases l <;> decide

/-- The value of a tree is a reading of its tokens. -/
theorem Grammar.Phrase.reading (regroups : I.Regroups) (regular : c.Regular) (h : Phrase c true next l ts e) :
    Reading I c next l.reading ts (e.values I) := by
  induction h with
  | loosen _ le ih => exact ih.loosen (Level.reading_mono le)
  | argument _ comma _ ih_before ih_last =>
    obtain ⟨y, value⟩ := ih_last.single le_rfl
    rw [values_snoc, value]
    rw [value] at ih_last
    exact ih_before.argument comma ih_last
  | @binary next o entry ts t us a b left sign known right ih_left ih_right =>
    obtain ⟨x, left_value⟩ := ih_left.single (by cases o <;> decide)
    obtain ⟨y, right_value⟩ := ih_right.single (by cases o <;> decide)
    rw [left_value] at ih_left
    rw [right_value] at ih_right
    rw [values_binary regular known left_value right_value]
    cases o with
    | plus => exact Reading.prepend regroups ih_left sign ih_right (by decide) y rfl
    | minus => exact .binary (o := .minus) ih_left sign ih_right
    | star => exact .binary (o := .star) ih_left sign ih_right
    | slash => exact .binary (o := .slash) ih_left sign ih_right
    | caret => exact .binary (o := .caret) ih_left sign ih_right
  | negation sign known _ ih =>
    obtain ⟨x, value⟩ := ih.single (by decide)
    rw [value] at ih
    rw [values_negation regular known value]
    exact .negation sign ih
  | factorial _ sign known ih =>
    obtain ⟨x, value⟩ := ih.single (by decide)
    rw [value] at ih
    rw [values_factorial regular known value]
    exact .factorial ih sign
  | juxtaposition left _ known ih_left ih_right =>
    obtain ⟨x, left_value⟩ := ih_left.single (by decide)
    obtain ⟨y, right_value⟩ := ih_right.single (by decide)
    rw [left_value] at ih_left
    rw [right_value] at ih_right
    rw [values_beside regular known ((left.denotes regular).1 (by decide)) left_value right_value]
    exact .juxtaposition ih_left ih_right
  | number kind read => exact .number kind read
  | constant kind known nullary apart =>
    rw [values_constant nullary]
    exact .constant kind known nullary apart
  | group opening _ closing ih =>
    obtain ⟨x, value⟩ := ih.single le_rfl
    rw [value] at ih ⊢
    exact .group opening ih closing
  | call name known opening _ closing ih =>
    rw [values_call (regular.named known).kind]
    exact .call name known opening ih closing
  | emptyCall name known opening closing =>
    rw [values_emptyCall (regular.named known).kind]
    exact .emptyCall name known opening closing
  | reuse _ callee nullary opening _ _ closing _ ih =>
    rw [values_call (.inr (.inr nullary))]
    exact .application (callee.lone (by decide) rfl nullary) opening ih closing
  | @emptyReuse next entry o q ts _ callee nullary opening closing ih =>
    have reading : Reading I c next .run (ts ++ [o, q]) [I.apply entry []] :=
      .emptyApplication (callee.lone (by decide) rfl nullary) opening closing
    rw [values_constant nullary]
    simp only [Interpretation.apply, nullary] at reading
    exact reading

/-- A phrase from the level of sums on has one value. -/
theorem Grammar.Phrase.value (regroups : I.Regroups) (regular : c.Regular) (h : Phrase c true next l ts e)
    (sum : .sum ≤ l) : ∃ x, e.values I = [x] :=
  (h.reading regroups regular).single (Level.reading_mono sum)

/-- A last summand is added to what is no addition itself. -/
theorem Grammar.Phrase.append_chain (regular : c.Regular) (additive : o.resultReading = .sum) (sign : t.kind = .operator o)
    (left : Phrase c true (some (.operator o)) l ts a) (chain : .chain ≤ l) (value : a.values I = [x])
    (right : Phrase c true next .product us b) (right_value : b.values I = [y]) :
    ∃ e, Phrase c true next .sum (ts ++ t :: us) e ∧ e.values I = [I.binary o x y] := by
  obtain ⟨own, own_known, -, -⟩ := regular.sign o
  have levels : o.leftLevel = .chain ∧ o.rightLevel ≤ .product ∧ .sum ≤ o.resultLevel := by
    revert additive
    cases o <;> decide
  have whole : Phrase c true next o.resultLevel (ts ++ t :: us) ⟨.reference own, some a, some b⟩ :=
    .binary (left.loosen (levels.1 ▸ chain)) sign own_known (right.loosen levels.2.1)
  exact ⟨_, whole.loosen levels.2.2, values_binary regular own_known value right_value⟩

/-- In an addition it is added to the right operand. -/
theorem Grammar.Phrase.append_plus (regroups : I.Regroups) (regular : c.Regular) (additive : o.resultReading = .sum)
    {vs ws : List Token} {x₁ x₂ : α} (left : Phrase c true (some (.operator .plus)) .chain vs a)
    (sign : t.kind = .operator .plus) (known : c.operator? "+" = some entry) (left_value : a.values I = [x₁])
    (right : ∃ b, Phrase c true next .sum ws b ∧ b.values I = [I.binary o x₂ y]) :
    ∃ e, Phrase c true next .sum (vs ++ t :: ws) e ∧ e.values I = [I.binary o (I.binary .plus x₁ x₂) y] := by
  obtain ⟨b, phrase, inner⟩ := right
  have whole : Phrase c true next .sum (vs ++ t :: ws) ⟨.reference entry, some a, some b⟩ :=
    .binary (o := .plus) left sign known phrase
  refine ⟨_, whole, ?_⟩
  rw [values_binary (o := .plus) regular known left_value inner]
  cases o with
  | plus => rw [regroups.plus]
  | minus => rw [regroups.minus]
  | star | slash | caret => cases additive

/-- A last summand may be hung onto the end of a sum: it goes down the right spine of its
additions. -/
theorem Grammar.Phrase.append (regroups : I.Regroups) (regular : c.Regular) (additive : o.resultReading = .sum)
    (sign : t.kind = .operator o) {before : Option TokenKind} (h : Phrase c true before l ts a)
    (follows : before = some (.operator o)) (sum : .sum ≤ l) (value : a.values I = [x])
    (right : Phrase c true next .product us b) (right_value : b.values I = [y]) :
    ∃ e, Phrase c true next .sum (ts ++ t :: us) e ∧ e.values I = [I.binary o x y] := by
  have direct {l ts a x} (left : Phrase c true (some (.operator o)) l ts a) (le : .chain ≤ l)
      (left_value : a.values I = [x]) :
      ∃ e, Phrase c true next .sum (ts ++ t :: us) e ∧ e.values I = [I.binary o x y] :=
    left.append_chain regular additive sign le left_value right right_value
  have left := h
  induction h generalizing x with
  | loosen phrase le ih => exact ih follows (sum.trans le) value phrase
  | argument => exact absurd sum (by decide)
  | @binary before p entry vs u ws a' b' first sign' known second _ ih =>
    subst follows
    cases p with
    | plus =>
      obtain ⟨x₁, value₁⟩ := first.value regroups regular (by decide)
      obtain ⟨x₂, value₂⟩ := second.value regroups regular (by decide)
      rw [values_binary regular known value₁ value₂] at value
      obtain rfl := List.singleton_inj.1 value
      rw [List.append_assoc, List.cons_append]
      exact first.append_plus regroups regular additive sign' known value₁ (ih rfl (by decide) value₂ second)
    | minus | star | slash | caret => exact direct left (by decide) value
  | _ =>
    subst follows
    exact direct left (by decide) value

/-- Every reading is the value of a phrase. -/
theorem Reading.phrase (regroups : I.Regroups) (regular : c.Regular) (h : Reading I c next l ts xs) :
    ∃ e, Phrase c true next l ts e ∧ e.values I = xs := by
  induction h with
  | loosen _ le ih =>
    obtain ⟨e, phrase, value⟩ := ih
    exact ⟨e, phrase.loosen le, value⟩
  | argument _ comma _ ih_before ih_last =>
    obtain ⟨a, before, values⟩ := ih_before
    obtain ⟨b, last, value⟩ := ih_last
    exact ⟨_, before.argument comma last, by rw [values_snoc, values, value]⟩
  | @binary next o ts t us x y _ sign _ ih_left ih_right =>
    obtain ⟨a, left, left_value⟩ := ih_left
    obtain ⟨b, right, right_value⟩ := ih_right
    obtain ⟨entry, known, -, -⟩ := regular.sign o
    cases o with
    | plus => exact left.append regroups regular rfl sign rfl le_rfl left_value right right_value
    | minus => exact left.append regroups regular rfl sign rfl le_rfl left_value right right_value
    | star =>
      exact ⟨_, .binary (o := .star) left sign known right, values_binary regular known left_value right_value⟩
    | slash =>
      exact ⟨_, .binary (o := .slash) left sign known right, values_binary regular known left_value right_value⟩
    | caret =>
      exact ⟨_, .binary (o := .caret) left sign known right, values_binary regular known left_value right_value⟩
  | negation sign _ ih =>
    obtain ⟨a, operand, value⟩ := ih
    obtain ⟨entry, known, -, -⟩ := regular.sign .minus
    exact ⟨_, .negation sign known operand, values_negation regular known value⟩
  | factorial _ sign ih =>
    obtain ⟨a, factors, value⟩ := ih
    obtain ⟨entry, known, -, -⟩ := regular.bang
    exact ⟨_, .factorial factors sign known, values_factorial regular known value⟩
  | juxtaposition _ _ ih_left ih_right =>
    obtain ⟨a, left, left_value⟩ := ih_left
    obtain ⟨b, right, right_value⟩ := ih_right
    obtain ⟨star, known, -, -⟩ := regular.sign .star
    have wf := (left.denotes regular).1 (by decide)
    exact ⟨_, .juxtaposition left right known, values_beside regular known wf left_value right_value⟩
  | number kind read => exact ⟨_, .number kind read, rfl⟩
  | constant kind known nullary apart => exact ⟨_, .constant kind known nullary apart, values_constant nullary⟩
  | group opening _ closing ih =>
    obtain ⟨e, content, value⟩ := ih
    exact ⟨e, .group opening content closing, value⟩
  | call name known opening _ closing ih =>
    obtain ⟨e, content, values⟩ := ih
    refine ⟨_, .call name known opening content closing, ?_⟩
    rw [values_call (regular.named known).kind, values]
  | emptyCall name known opening closing =>
    exact ⟨_, .emptyCall name known opening closing, values_emptyCall (regular.named known).kind⟩
  | application callee opening _ closing ih =>
    obtain ⟨e, content, values⟩ := ih
    obtain ⟨nullary, ⟨n, rfl, name, known⟩ | phrase⟩ := callee.phrase
    · refine ⟨_, .loosen (.call name known opening content closing) (by decide), ?_⟩
      rw [values_call (.inr (.inr nullary)), values]
    · refine ⟨_, (phrase _).apply regular nullary opening content closing, ?_⟩
      rw [values_call (.inr (.inr nullary)), values]
  | emptyApplication callee opening closing =>
    have constant {entry : Entry} (nullary : entry.kind = .nullary) :
        (reference entry).values I = [I.apply entry []] := by
      rw [values_constant nullary]
      simp only [Interpretation.apply, nullary]
    obtain ⟨nullary, ⟨n, rfl, name, known⟩ | phrase⟩ := callee.phrase
    · exact ⟨_, .loosen (.emptyCall name known opening closing) (by decide), values_emptyCall (.inr (.inr nullary))⟩
    · exact ⟨_, .emptyReuse rfl (phrase _) nullary opening closing, constant nullary⟩

/-- Whatever additions and subtractions mean, as long as they regroup: the value of what a text
builds is the one value that the textbook reading gives to the text. -/
theorem value_eq_reading (I : Interpretation α) (regroups : I.Regroups) (constants : List (String × Float))
    {ts : List Token} {e : Expression} (built : (Catalog.standard.withConstants constants).expression ts = .ok e) :
    ∃ x, e.values I = [x] ∧
      ∀ xs, Reading I (Catalog.standard.withConstants constants) none .sum ts xs ↔ xs = [x] := by
  have regular := Catalog.regular_withConstants constants
  have phrase := (expression_eq_ok_iff regular).1 built
  have reading := phrase.reading regroups regular
  obtain ⟨x, value⟩ := phrase.value regroups regular le_rfl
  refine ⟨x, value, fun xs => ⟨fun other => ?_, ?_⟩⟩
  · obtain ⟨e', phrase', value'⟩ := other.phrase regroups regular
    have same : e' = e := by
      have built' := (expression_eq_ok_iff regular).2 phrase'
      exact Except.ok.inj (built'.symm.trans built)
    rw [← value', same, value]
  · rintro rfl
    rw [← value]
    exact reading

/-- Integers, with every constant one. -/
def Interpretation.integers : Interpretation Int where
  literal _ := 0
  constant _ := 1
  call _ _ := 0
  binary
    | .plus, x, y => x + y
    | .minus, x, y => x - y
    | .star, x, y => x * y
    | .slash, x, y => x / y
    | .caret, x, y => x ^ y.toNat
  negate x := -x
  factorial x := x

/-- A sum, a difference and a sum again are read in this order: `pi+pi-pi+pi` is two. -/
theorem value_eq_reading_integers :
    let c := Catalog.standard.withConstants []
    let ts : List Token := [⟨.name, "pi", 0⟩, ⟨.operator .plus, "+", 2⟩, ⟨.name, "pi", 3⟩, ⟨.operator .minus, "-", 5⟩,
      ⟨.name, "pi", 6⟩, ⟨.operator .plus, "+", 8⟩, ⟨.name, "pi", 9⟩]
    (∃ e, c.expression ts = .ok e ∧ e.values .integers = [2]) ∧
      ∀ xs, Reading .integers c none .sum ts xs ↔ xs = [2] := by
  intro c ts
  have regroups : Interpretation.integers.Regroups := ⟨Int.add_assoc, Int.add_sub_assoc⟩
  obtain ⟨e, built, value⟩ : ∃ e, c.expression ts = .ok e ∧ e.values .integers = [2] := ⟨_, rfl, rfl⟩
  obtain ⟨x, same, reading⟩ := value_eq_reading .integers regroups [] built
  obtain rfl : x = 2 := List.singleton_inj.1 (same.symm.trans value)
  exact ⟨⟨e, built, value⟩, reading⟩

end Reckoner
