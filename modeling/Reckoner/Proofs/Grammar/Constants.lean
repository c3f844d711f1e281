import Mathlib.Data.List.Forall2
import Reckoner.Proofs.Expression.Numbers
import Reckoner.Proofs.Grammar.Follow
import Reckoner.Proofs.Grammar.Trees

/-!
# Reading constants as numbers

Where numbers stand for the added constants of a text, none of which is called, the text
is read to the same tree, but for the numbers in the place of the constants.
-/

namespace Reckoner

open Expression

/-- `u` is `t`, or if `t` names a constant a number of its value. -/
def Token.Numbered (constants : List (String × Float)) (t u : Token) : Prop :=
  match t.constant? constants with
  | some value => u.kind = .number ∧ Decimal.read? u.text = some value
  | none => u = t

namespace Grammar

/-- Numbers stand for the constants of `ts` in `us`, and before a token of the kind `next` none of
the constants is called. -/
structure Numbered (constants : List (String × Float)) (next : Option TokenKind) (ts us : List Token) : Prop where
  tokens : List.Forall₂ (Token.Numbered constants) ts us
  uncalled (before : List Token) (t : Token) (after : List Token) : ts = before ++ t :: after →
    (t.constant? constants).isSome → (after.head?.map Token.kind).or next ≠ some .opening

variable {constants : List (String × Float)} {c : Catalog} {extended : Bool} {next upcoming : Option TokenKind}
  {l : Level} {ts us vs : List Token} {t u : Token} {e : Expression} {entry : Entry} {value : Float}

theorem numbered_of_constant (stands : t.constant? constants = some value) :
    t.Numbered constants u ↔ u.kind = .number ∧ Decimal.read? u.text = some value := by
  rw [Token.Numbered, stands]

theorem numbered_of_other (other : t.constant? constants = none) : t.Numbered constants u ↔ u = t := by
  rw [Token.Numbered, other]

/-- What is no number stood there before. -/
theorem eq_of_numbered (h : t.Numbered constants u) (other : u.kind ≠ .number) : t = u ∧ u.constant? constants = none := by
  cases stands : t.constant? constants with
  | some value => exact absurd ((numbered_of_constant stands).1 h).1 other
  | none =>
    obtain rfl := (numbered_of_other stands).1 h
    exact ⟨rfl, stands⟩

/-- Parentheses stay where they are. -/
theorem kind_of_numbered (h : t.Numbered constants u) (opening : t.kind = .opening) : u.kind = .opening := by
  rw [(numbered_of_other (Token.constant?_of_kind (by simp [opening]))).1 h, opening]

namespace Numbered

theorem of_append (h : Numbered constants next ts (us ++ vs)) :
    ∃ ts₁ ts₂, ts = ts₁ ++ ts₂ ∧ Numbered constants ((ts₂.head?.map Token.kind).or next) ts₁ us ∧
      Numbered constants next ts₂ vs := by
  refine ⟨ts.take us.length, ts.drop us.length, (List.take_append_drop _ _).symm,
    ⟨List.forall₂_take_append ts us vs h.tokens, fun before t after split stands => ?_⟩,
    ⟨List.forall₂_drop_append ts us vs h.tokens, fun before t after split stands => ?_⟩⟩
  · have apart := h.uncalled before t (after ++ ts.drop us.length)
      (by rw [← List.cons_append, ← List.append_assoc, ← split, List.take_append_drop]) stands
    cases after <;> simpa using apart
  · exact h.uncalled (ts.take us.length ++ before) t after
      (by rw [List.append_assoc, ← split, List.take_append_drop]) stands

theorem of_cons (h : Numbered constants next ts (u :: us)) (other : u.kind ≠ .number) :
    ∃ ts', ts = u :: ts' ∧ u.constant? constants = none ∧ Numbered constants next ts' us := by
  obtain ⟨t, ts', first, rest, rfl⟩ := List.forall₂_cons_right_iff.1 h.tokens
  obtain ⟨rfl, free⟩ := eq_of_numbered first other
  exact ⟨ts', rfl, free, rest, fun before s after split => h.uncalled (t :: before) s after (by rw [split]; rfl)⟩

theorem of_nil (h : Numbered constants next ts []) : ts = [] :=
  List.forall₂_nil_right_iff.1 h.tokens

/-- What is no number divides the tokens. -/
theorem of_middle (h : Numbered constants next ts (us ++ u :: vs)) (other : u.kind ≠ .number) :
    ∃ ts₁ ts₂, ts = ts₁ ++ u :: ts₂ ∧ Numbered constants (some u.kind) ts₁ us ∧ Numbered constants next ts₂ vs := by
  obtain ⟨ts₁, _, rfl, first, second⟩ := h.of_append
  obtain ⟨ts₂, rfl, -, rest⟩ := second.of_cons other
  exact ⟨ts₁, ts₂, rfl, first, rest⟩

theorem of_last (h : Numbered constants next ts (us ++ [u])) (other : u.kind ≠ .number) :
    ∃ ts₁, ts = ts₁ ++ [u] ∧ Numbered constants (some u.kind) ts₁ us := by
  obtain ⟨ts₁, ts₂, rfl, first, rest⟩ := h.of_middle other
  obtain rfl := rest.of_nil
  exact ⟨ts₁, rfl, first⟩

end Numbered

/-- A sign means what it did before. -/
theorem operator?_of_known {symbol : String} (known : c.operator? symbol = some entry) :
    (c.withConstants constants).operator? symbol = some entry := by
  rw [Catalog.operator?_withConstants, known]

/-- A sign stands for no number. -/
theorem number?_of_sign {p : Operator} (regular : c.Regular) (known : c.operator? p.symbol = some entry) :
    entry.number? constants = none :=
  Entry.number?_of_kind (by simp [(regular.of_sign known).1])

/-- A name that is no constant means what it did before. -/
theorem lookup?_of_other (name : t.kind = .name) (free : t.constant? constants = none)
    (known : c.lookup? t.text = some entry) :
    (c.withConstants constants).lookup? t.text = some entry ∧ entry.number? constants = none := by
  rw [Token.constant?_of_name name] at free
  refine ⟨by rw [Catalog.lookup?_of_constants, free]; exact known, Entry.number?_of_name ?_⟩
  rw [(Catalog.of_lookup? known).1, free]

/-- With the constants back where numbers stand for them, the tokens of a phrase are a phrase whose tree is the same but
for these numbers. -/
def Restores (constants : List (String × Float)) (c : Catalog) (extended : Bool) (next : Option TokenKind) (l : Level)
    (us : List Token) (e : Expression) : Prop :=
  ∀ ⦃ts upcoming⦄, Numbered constants upcoming ts us → (upcoming = some .opening → next = some .opening) →
    ∃ e', Phrase (c.withConstants constants) extended upcoming l ts e' ∧ e'.withNumbers constants = e

namespace Restores

variable {a b : Expression} {n o q : Token} {p : Operator} {star : Entry}

theorem loosen {k : Level} (h : Restores constants c extended next l us e) (le : k ≤ l) :
    Restores constants c extended next k us e := by
  intro ts upcoming numbered fits
  obtain ⟨e', phrase, same⟩ := h numbered fits
  exact ⟨e', phrase.loosen le, same⟩

theorem argument (comma : t.kind = .comma) (before : Restores constants c extended (some .comma) .arguments us a)
    (last : Restores constants c extended next .sum vs b) :
    Restores constants c extended next .arguments (us ++ t :: vs) (.arguments (a.asArguments ++ [b])) := by
  intro ts upcoming numbered fits
  obtain ⟨ts₁, ts₂, rfl, first, rest⟩ := numbered.of_middle (by simp [comma])
  rw [comma] at first
  obtain ⟨a, before', rfl⟩ := before first (by simp)
  obtain ⟨b, last', rfl⟩ := last rest fits
  refine ⟨_, before'.argument comma last', ?_⟩
  rw [withNumbers_arguments, List.map_append, ← asArguments_withNumbers, List.map_cons, List.map_nil]

theorem binary (regular : c.Regular) (sign : t.kind = .operator p) (known : c.operator? p.symbol = some entry)
    (left : Restores constants c extended (some (.operator p)) p.leftLevel us a)
    (right : Restores constants c extended next p.rightLevel vs b) :
    Restores constants c extended next p.resultLevel (us ++ t :: vs) ⟨.reference entry, some a, some b⟩ := by
  intro ts upcoming numbered fits
  obtain ⟨ts₁, ts₂, rfl, first, rest⟩ := numbered.of_middle (by simp [sign])
  rw [sign] at first
  obtain ⟨a, left', rfl⟩ := left first (by simp)
  obtain ⟨b, right', rfl⟩ := right rest fits
  exact ⟨_, left'.binary sign (operator?_of_known known) right', withNumbers_reference (number?_of_sign regular known)⟩

theorem negation (regular : c.Regular) (sign : t.kind = .operator .minus) (known : c.operator? "-" = some entry)
    (operand : Restores constants c extended next .unary us a) :
    Restores constants c extended next .unary (t :: us) ⟨.reference entry, none, some a⟩ := by
  intro ts upcoming numbered fits
  obtain ⟨ts₁, rfl, -, rest⟩ := numbered.of_cons (by simp [sign])
  obtain ⟨a, operand', rfl⟩ := operand rest fits
  have other : entry.number? constants = none := number?_of_sign (p := .minus) regular known
  exact ⟨_, .negation sign (operator?_of_known known) operand', withNumbers_reference other⟩

theorem factorial (regular : c.Regular) (sign : t.kind = .bang) (known : c.operator? "!" = some entry)
    (operand : Restores constants c extended (some .bang) .run us a) :
    Restores constants c extended next .run (us ++ [t]) ⟨.reference entry, some a, none⟩ := by
  intro ts upcoming numbered fits
  obtain ⟨ts₁, rfl, first⟩ := numbered.of_last (by simp [sign])
  rw [sign] at first
  obtain ⟨a, operand', rfl⟩ := operand first (by simp)
  have other : entry.number? constants = none := Entry.number?_of_kind (by simp [(regular.of_bang known).1])
  exact ⟨_, operand'.factorial sign (operator?_of_known known), withNumbers_reference other⟩

/-- No constant on the left comes to be called, since a parenthesis that opens the right part was there before. -/
theorem juxtaposition (regular : c.Regular) (known : c.operator? "*" = some star)
    (element : Phrase c extended next .element vs b) (left : Restores constants c extended (vs.head?.map Token.kind) .run us a)
    (right : Restores constants c extended next .element vs b) :
    Restores constants c extended next .run (us ++ vs) (a.beside star b) := by
  intro ts upcoming numbered fits
  obtain ⟨ts₁, ts₂, rfl, first, second⟩ := numbered.of_append
  obtain ⟨v, rest, rfl, -⟩ := element.element_head le_rfl
  obtain ⟨t, ts₂, head, _, rfl⟩ := List.forall₂_cons_right_iff.1 second.tokens
  have stays : t.kind = .opening → v.kind = .opening := kind_of_numbered head
  obtain ⟨a, left', rfl⟩ := left first (by simpa using stays)
  obtain ⟨b, right', rfl⟩ := right second fits
  have other : star.number? constants = none := number?_of_sign (p := .star) regular known
  exact ⟨_, left'.juxtaposition right' (operator?_of_known known), withNumbers_beside other a b⟩

/-- The constant is an element of its own where the number was, as no parenthesis follows. -/
theorem number (kind : u.kind = .number) (read : Decimal.read? u.text = some value) :
    Restores constants c extended next .element [u] (.literal value) := by
  intro ts upcoming numbered fits
  obtain ⟨t, _, first, rest, rfl⟩ := List.forall₂_cons_right_iff.1 numbered.tokens
  obtain rfl := List.forall₂_nil_right_iff.1 rest
  cases stands : t.constant? constants with
  | none =>
    obtain rfl := (numbered_of_other stands).1 first
    exact ⟨_, .number kind read, rfl⟩
  | some v =>
    obtain ⟨-, read'⟩ := (numbered_of_constant stands).1 first
    obtain rfl := Option.some.inj (read'.symm.trans read)
    have name : t.kind = .name := by
      by_contra other
      rw [Token.constant?_of_kind other] at stands
      cases stands
    have key := stands
    rw [Token.constant?_of_name name] at key
    have apart : upcoming ≠ some .opening := numbered.uncalled [] t [] rfl (by rw [stands]; rfl)
    have known : (c.withConstants constants).lookup? t.text = some (.constant t.text v "injected constant") := by
      rw [Catalog.lookup?_of_constants, key]
    exact ⟨_, .constant name known rfl apart, withNumbers_constant (Entry.number?_constant key)⟩

theorem constant (kind : t.kind = .name) (known : c.lookup? t.text = some entry) (nullary : entry.kind = .nullary)
    (apart : next ≠ some .opening) : Restores constants c extended next .element [t] (.reference entry) := by
  intro ts upcoming numbered fits
  obtain ⟨ts₁, rfl, free, rest⟩ := numbered.of_cons (by simp [kind])
  obtain rfl := rest.of_nil
  obtain ⟨known, other⟩ := lookup?_of_other kind free known
  exact ⟨_, .constant kind known nullary (apart ∘ fits), withNumbers_reference other⟩

theorem group (opening : o.kind = .opening) (closing : q.kind = .closing)
    (content : Restores constants c extended (some .closing) .sum us e) :
    Restores constants c extended next .element (o :: (us ++ [q])) e := by
  intro ts upcoming numbered fits
  obtain ⟨ts₁, rfl, -, rest⟩ := numbered.of_cons (by simp [opening])
  obtain ⟨ts₂, rfl, inner⟩ := rest.of_last (by simp [closing])
  rw [closing] at inner
  obtain ⟨e', content', same⟩ := content inner (by simp)
  exact ⟨e', .group opening content' closing, same⟩

theorem call (name : n.kind = .name) (known : c.lookup? n.text = some entry) (opening : o.kind = .opening)
    (closing : q.kind = .closing) (content : Restores constants c extended (some .closing) .arguments us e) :
    Restores constants c extended next .element (n :: o :: (us ++ [q])) ((Expression.reference entry).withRight e) := by
  intro ts upcoming numbered fits
  obtain ⟨ts₁, rfl, free, behind⟩ := numbered.of_cons (by simp [name])
  obtain ⟨ts₂, rfl, -, rest⟩ := behind.of_cons (by simp [opening])
  obtain ⟨ts₃, rfl, inner⟩ := rest.of_last (by simp [closing])
  rw [closing] at inner
  obtain ⟨e', content', rfl⟩ := content inner (by simp)
  obtain ⟨known, other⟩ := lookup?_of_other name free known
  exact ⟨_, .call name known opening content' closing, withNumbers_reference other⟩

theorem emptyCall (name : n.kind = .name) (known : c.lookup? n.text = some entry) (opening : o.kind = .opening)
    (closing : q.kind = .closing) : Restores constants c extended next .element [n, o, q] (.emptyCall entry) := by
  intro ts upcoming numbered fits
  obtain ⟨ts₁, rfl, free, behind⟩ := numbered.of_cons (by simp [name])
  obtain ⟨ts₂, rfl, -, rest⟩ := behind.of_cons (by simp [opening])
  obtain ⟨ts₃, rfl, -, last⟩ := rest.of_cons (by simp [closing])
  obtain rfl := last.of_nil
  obtain ⟨known, other⟩ := lookup?_of_other name free known
  exact ⟨_, .emptyCall name known opening closing, withNumbers_emptyCall other⟩

theorem reuse (allowed : extended = true) (nullary : entry.kind = .nullary) (opening : o.kind = .opening)
    (several : e.isList = true) (closing : q.kind = .closing)
    (callee : Restores constants c extended (some .opening) .run us (.reference entry))
    (content : Restores constants c extended (some .closing) .arguments vs e) :
    Restores constants c extended next .run (us ++ o :: (vs ++ [q])) ((Expression.reference entry).withRight e) := by
  intro ts upcoming numbered fits
  obtain ⟨ts₁, ts₂, rfl, first, rest⟩ := numbered.of_middle (by simp [opening])
  obtain ⟨ts₃, rfl, inner⟩ := rest.of_last (by simp [closing])
  rw [opening] at first
  rw [closing] at inner
  obtain ⟨a, callee', same⟩ := callee first (by simp)
  obtain rfl := eq_reference_of_withNumbers same
  obtain ⟨e', content', rfl⟩ := content inner (by simp)
  rw [isList_withNumbers] at several
  refine ⟨_, .reuse allowed callee' nullary opening content' several closing, ?_⟩
  rw [withNumbers_withRight, same]

theorem emptyReuse (allowed : extended = true) (nullary : entry.kind = .nullary) (opening : o.kind = .opening)
    (closing : q.kind = .closing) (callee : Restores constants c extended (some .opening) .run us (.reference entry)) :
    Restores constants c extended next .run (us ++ [o, q]) (.reference entry) := by
  intro ts upcoming numbered fits
  obtain ⟨ts₁, ts₂, rfl, first, rest⟩ := numbered.of_middle (by simp [opening])
  obtain ⟨ts₃, rfl, -, last⟩ := rest.of_cons (by simp [closing])
  obtain rfl := last.of_nil
  rw [opening] at first
  obtain ⟨a, callee', same⟩ := callee first (by simp)
  obtain rfl := eq_reference_of_withNumbers same
  exact ⟨_, .emptyReuse allowed callee' nullary opening closing, same⟩

end Restores

/-- A phrase with numbers for the constants is a phrase with the constants. -/
theorem Phrase.restores (regular : c.Regular) (h : Phrase c extended next l us e) :
    Restores constants c extended next l us e := by
  induction h with
  | loosen _ le ih => exact ih.loosen le
  | argument _ comma _ ih_before ih_last => exact .argument comma ih_before ih_last
  | binary _ sign known _ ih_left ih_right => exact .binary regular sign known ih_left ih_right
  | negation sign known _ ih => exact .negation regular sign known ih
  | factorial _ sign known ih => exact .factorial regular sign known ih
  | juxtaposition _ right known ih_left ih_right => exact .juxtaposition regular known right ih_left ih_right
  | number kind read => exact .number kind read
  | constant kind known nullary apart => exact .constant kind known nullary apart
  | group opening _ closing ih => exact .group opening closing ih
  | call name known opening _ closing ih => exact .call name known opening closing ih
  | emptyCall name known opening closing => exact .emptyCall name known opening closing
  | reuse allowed _ nullary opening _ several closing ih_callee ih =>
    exact .reuse allowed nullary opening several closing ih_callee ih
  | emptyReuse allowed _ nullary opening closing ih => exact .emptyReuse allowed nullary opening closing ih

end Grammar

end Reckoner
