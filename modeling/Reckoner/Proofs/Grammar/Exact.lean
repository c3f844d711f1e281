import Reckoner.Calculator
import Reckoner.Proofs.Decimal.Plain
import Reckoner.Proofs.Grammar.Calls
import Reckoner.Proofs.Stack.Complete

/-!
# The grammar that is read

What a calculator reads is the extended grammar. The grammar itself is read on every
text whose calls follow names; elsewhere a constant in parentheses takes a second
group behind it.
-/

namespace Reckoner.Grammar

variable {c : Catalog} {ts : List Token} {e : Expression}

/-- The expressions that are read are the sums of the extended grammar. -/
theorem expression_eq_ok_iff (regular : c.Regular) : c.expression ts = .ok e ↔ Phrase c true none .sum ts e := by
  rw [← build_eq_ok_iff regular, Catalog.expression]
  cases built : Assembly.empty.build c ts with
  | error failure => simp
  | ok result =>
    obtain ⟨root, rest⟩ := result
    obtain ⟨-, rfl⟩ := build_phrase regular built
    simp

/-- A catalog with the standard operations and any constants reads the extended grammar. It reads the
grammar itself exactly on the token lists that it refuses and on those whose calls follow
names; and what it reads as a number has a digit and at most one point. -/
theorem expression_follows_grammar (constants : List (String × Float)) (ts : List Token)
    (plain : ∀ t ∈ ts, t.kind = .number → Decimal.Plain t.text.toList) :
    let c := Catalog.standard.withConstants constants
    ((∀ e, c.expression ts = .ok e ↔ Phrase c false none .sum ts e) ↔
      ∀ e, c.expression ts = .ok e → CallsFollowNames ts) ∧
    (∀ e, c.expression ts = .ok e ↔ Phrase c true none .sum ts e) ∧
    ∀ t ∈ ts, t.kind = .number → ((Decimal.read? t.text).isSome = true ↔
      (∃ ch ∈ t.text.toList, ch.isDigit = true) ∧ t.text.toList.count '.' ≤ 1) := by
  intro c
  have regular : c.Regular := Catalog.regular_withConstants constants
  have read (e : Expression) : c.expression ts = .ok e ↔ Phrase c true none .sum ts e := expression_eq_ok_iff regular
  refine ⟨⟨fun exact e built => ?_, fun calls e => ⟨fun built => ?_, fun phrase => ?_⟩⟩, read, fun t member kind => ?_⟩
  · exact ((exact e).1 built).callsFollowNames
  · exact ((read e).1 built).strict regular (calls e built)
  · exact (read e).2 phrase.extend
  · rw [(plain t member kind).read?_eq]
    exact Decimal.unsigned?_isSome (plain t member kind)

/-- A numeral and a constant side by side keep to the grammar. -/
theorem expression_follows_grammar_product :
    let c := Catalog.standard.withConstants [("x", 2.0)]
    let ts : List Token := [⟨.number, "2.5", 0⟩, ⟨.name, "x", 3⟩]
    CallsFollowNames ts ∧ ∀ e, c.expression ts = .ok e ↔ Phrase c false none .sum ts e := by
  intro c ts
  have calls : CallsFollowNames ts := by decide
  have plain : ∀ t ∈ ts, t.kind = .number → Decimal.Plain t.text.toList := by
    intro t member kind
    rcases List.mem_cons.1 member with rfl | later
    · exact List.all_eq_true.1 (by decide : "2.5".toList.all Lexer.isNumeral = true)
    · obtain rfl := List.mem_singleton.1 later
      cases kind
  exact ⟨calls, ((expression_follows_grammar [("x", 2.0)] ts plain).1).2 fun _ _ => calls⟩

/-- A constant in parentheses with an empty pair behind it is read, but is no phrase of the grammar. -/
theorem constant_group_called :
    let c := Catalog.standard.withConstants []
    let ts : List Token :=
      [⟨.opening, "(", 0⟩, ⟨.name, "pi", 1⟩, ⟨.closing, ")", 3⟩, ⟨.opening, "(", 4⟩, ⟨.closing, ")", 5⟩]
    (∃ e, c.expression ts = .ok e) ∧ ¬ ∃ e, Phrase c false none .sum ts e := by
  intro c ts
  have regular : c.Regular := Catalog.regular_withConstants []
  obtain ⟨entry, known, nullary⟩ : ∃ e, c.lookup? "pi" = some e ∧ e.kind = .nullary := ⟨_, rfl, rfl⟩
  have constant : Phrase c true (some .closing) .element [⟨.name, "pi", 1⟩] (.reference entry) :=
    .constant rfl known nullary (by decide)
  have callee : Phrase c true (some .opening) .element
      (⟨.opening, "(", 0⟩ :: ([⟨.name, "pi", 1⟩] ++ [⟨.closing, ")", 3⟩])) (.reference entry) :=
    .group rfl (constant.loosen (by decide)) rfl
  have called : Phrase c true none .run ts (.reference entry) :=
    .emptyReuse rfl (callee.loosen (by decide)) nullary rfl rfl
  refine ⟨⟨_, (expression_eq_ok_iff regular).2 (called.loosen (by decide))⟩, ?_⟩
  rintro ⟨e, phrase⟩
  have calls : ¬ CallsFollowNames ts := by decide
  exact calls phrase.callsFollowNames

/-- The assemblies of a parser that has never refused a token list. -/
inductive Unbroken (c : Catalog) : Assembly → Prop where
  | fresh : Unbroken c .empty
  | build {a b ts e} (before : Unbroken c a) (built : a.build c ts = .ok (e, b)) : Unbroken c b

theorem Unbroken.eq_empty (regular : c.Regular) {a : Assembly} (h : Unbroken c a) : a = .empty := by
  induction h with
  | fresh => rfl
  | build before built ih =>
    subst ih
    exact (build_phrase regular built).2

/-- What is built over a catalog with the standard operations and any constants is well-formed
at every node. -/
theorem build_wellFormed (constants : List (String × Float)) {a b : Assembly} {ts : List Token} {e : Expression}
    (unbroken : Unbroken (Catalog.standard.withConstants constants) a)
    (built : a.build (Catalog.standard.withConstants constants) ts = .ok (e, b)) : e.WellFormed := by
  have regular := Catalog.regular_withConstants constants
  rw [unbroken.eq_empty regular] at built
  have phrase := (build_phrase regular built).1
  exact (phrase.denotes regular).1 le_rfl

/-- In `-x*max(2!,3 4)` a negation, a call, its list of two arguments and a factorial are built, each with the children
that it has to have. -/
theorem build_wellFormed_nested :
    let c := Catalog.standard.withConstants [("x", 2.0)]
    let ts : List Token :=
      [⟨.operator .minus, "-", 0⟩, ⟨.name, "x", 1⟩, ⟨.operator .star, "*", 2⟩, ⟨.name, "max", 3⟩, ⟨.opening, "(", 6⟩,
        ⟨.number, "2", 7⟩, ⟨.bang, "!", 8⟩, ⟨.comma, ",", 9⟩, ⟨.number, "3", 10⟩, ⟨.number, "4", 12⟩, ⟨.closing, ")", 13⟩]
    ∃ (star minus x max bang : Entry) (two three four : Float),
      let negation : Expression := ⟨.reference minus, none, some (.reference x)⟩
      let factorial : Expression := ⟨.reference bang, some (.literal two), none⟩
      let list : Expression := .arguments [factorial, ⟨.literal three, none, some (.literal four)⟩]
      let call : Expression := ⟨.reference max, none, some list⟩
      let e : Expression := ⟨.reference star, some negation, some call⟩
      Assembly.empty.build c ts = .ok (e, .empty) ∧ e.WellFormed ∧
        (minus.kind = .binary ∧ negation.WellShaped) ∧ (max.kind = .variadic ∧ call.WellShaped) ∧ list.WellShaped ∧
        bang.kind = .suffix ∧ factorial.WellShaped := by
  intro c ts
  obtain ⟨star, minus, x, max, bang, two, three, four, built, binary, variadic, suffix⟩ :
      ∃ (star minus x max bang : Entry) (two three four : Float),
        Assembly.empty.build c ts = .ok (⟨.reference star, some ⟨.reference minus, none, some (.reference x)⟩,
          some ⟨.reference max, none, some (.arguments [⟨.reference bang, some (.literal two), none⟩,
            ⟨.literal three, none, some (.literal four)⟩])⟩⟩, .empty) ∧
        minus.kind = .binary ∧ max.kind = .variadic ∧ bang.kind = .suffix :=
    ⟨_, _, _, _, _, _, _, _, rfl, rfl, rfl, rfl⟩
  have wf := build_wellFormed [("x", 2.0)] .fresh built
  -- The nodes are numbered in pre-order.
  have shaped (i : Nat) {n : Expression} (there : (Expression.nodes _)[i]? = some n) : n.WellShaped :=
    wf.nodes n (List.mem_of_getElem? there)
  exact ⟨star, minus, x, max, bang, two, three, four, built, wf, ⟨binary, shaped 1 rfl⟩, ⟨variadic, shaped 3 rfl⟩,
    shaped 4 rfl, suffix, shaped 5 rfl⟩

end Reckoner.Grammar
