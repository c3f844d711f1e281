import Reckoner.Proofs.Grammar.Trees

/-!
# Groups behind names

In the grammar without its extension only a group right behind a name is a call.
One scan of the tokens from left to right tells whether a list keeps to that:
`Phrase.scan` shows that every phrase does, and `Phrase.strict` that a phrase of the
extended grammar which does is one of the grammar itself.
-/

namespace Reckoner.Grammar

open Expression

/-- Where a scan stands: of every open group, innermost first, whether a name stands right
before it, and the kind of the last token. -/
structure Scan where
  opened : List Bool
  last : Option TokenKind

namespace Scan

/-- One token further. A comma stands only in a group behind a name, and so does a closing
parenthesis right behind the opening one. -/
def step (s : Scan) : TokenKind → Option Scan
  | .opening => some ⟨(s.last == some .name) :: s.opened, some .opening⟩
  | .comma => if s.opened.head? = some true then some ⟨s.opened, some .comma⟩ else none
  | .closing =>
    if s.last = some .opening ∧ s.opened.head? = some false then none
    else some ⟨s.opened.tail, some .closing⟩
  | kind => some ⟨s.opened, some kind⟩

def run (s : Scan) (ts : List Token) : Option Scan :=
  (ts.map Token.kind).foldlM step s

variable {s : Scan} {t : Token} {ts us : List Token}

theorem run_append : s.run (ts ++ us) = (s.run ts).bind fun s' => s'.run us := by
  simp [run, List.foldlM_append, Option.bind_eq_bind]

theorem run_cons : s.run (t :: us) = (s.step t.kind).bind fun s' => s'.run us := by
  simp [run, Option.bind_eq_bind]

theorem run_singleton : s.run [t] = s.step t.kind := by
  simp [run]

theorem run_append_eq_some {s' : Scan} :
    s.run (ts ++ us) = some s' ↔ ∃ s₁, s.run ts = some s₁ ∧ s₁.run us = some s' := by
  rw [run_append, Option.bind_eq_some_iff]

theorem run_cons_eq_some {s' : Scan} :
    s.run (t :: us) = some s' ↔ ∃ s₁, s.step t.kind = some s₁ ∧ s₁.run us = some s' := by
  rw [run_cons, Option.bind_eq_some_iff]

theorem step_operator (o : Operator) : s.step (.operator o) = some ⟨s.opened, some (.operator o)⟩ := rfl

theorem step_name : s.step .name = some ⟨s.opened, some .name⟩ := rfl

theorem step_opening : s.step .opening = some ⟨(s.last == some .name) :: s.opened, some .opening⟩ := rfl

theorem step_comma : s.step .comma = if s.opened.head? = some true then some ⟨s.opened, some .comma⟩ else none := rfl

theorem step_closing : s.step .closing =
    if s.last = some .opening ∧ s.opened.head? = some false then none else some ⟨s.opened.tail, some .closing⟩ := rfl

theorem step_comma_eq_some {s' : Scan} :
    s.step .comma = some s' ↔ s.opened.head? = some true ∧ s' = ⟨s.opened, some .comma⟩ := by
  rw [step_comma]
  split <;> simp_all [eq_comm]

theorem step_closing_eq_some {s' : Scan} :
    s.step .closing = some s' ↔
      ¬ (s.last = some .opening ∧ s.opened.head? = some false) ∧ s' = ⟨s.opened.tail, some .closing⟩ := by
  rw [step_closing]
  split <;> simp_all [eq_comm]

end Scan

/-- Every comma and every empty pair of parentheses belongs to a group right behind a name. -/
def CallsFollowNames (ts : List Token) : Prop :=
  ((⟨[], none⟩ : Scan).run ts).isSome

instance (ts : List Token) : Decidable (CallsFollowNames ts) :=
  inferInstanceAs (Decidable (_ = true))

variable {c : Catalog} {next : Option TokenKind} {l : Level} {ts : List Token} {e : Expression}

/-- The extended grammar has every phrase of the grammar. -/
theorem Phrase.extend {extended : Bool} (h : Phrase c extended next l ts e) : Phrase c true next l ts e := by
  induction h with
  | loosen _ le ih => exact ih.loosen le
  | argument _ comma _ ih_before ih_last => exact ih_before.argument comma ih_last
  | binary _ sign known _ ih_left ih_right => exact ih_left.binary sign known ih_right
  | negation sign known _ ih => exact .negation sign known ih
  | factorial _ sign known ih => exact ih.factorial sign known
  | juxtaposition _ _ known ih_left ih_right => exact ih_left.juxtaposition ih_right known
  | number kind read => exact .number kind read
  | constant kind known nullary apart => exact .constant kind known nullary apart
  | group opening _ closing ih => exact .group opening ih closing
  | call name known opening _ closing ih => exact .call name known opening ih closing
  | emptyCall name known opening closing => exact .emptyCall name known opening closing
  | reuse _ _ nullary opening _ several closing ih_callee ih =>
    exact .reuse rfl ih_callee nullary opening ih several closing
  | emptyReuse _ _ nullary opening closing ih => exact .emptyReuse rfl ih nullary opening closing

/-- A phrase leaves the open groups as they were, and a group behind it is not empty. -/
theorem Phrase.scan (h : Phrase c false next l ts e) (s : Scan) (place : s.opened.head? = some true ∨ .sum ≤ l) :
    ∃ kind, s.run ts = some ⟨s.opened, some kind⟩ ∧ kind ≠ .opening := by
  induction h generalizing s with
  | loosen _ le ih => exact ih s (place.imp_right fun sum => sum.trans le)
  | argument before comma last ih_before ih_last =>
    have call : s.opened.head? = some true := place.resolve_right (by decide)
    obtain ⟨k, first, -⟩ := ih_before s (.inl call)
    obtain ⟨k', rest, other⟩ := ih_last ⟨s.opened, some .comma⟩ (.inr le_rfl)
    refine ⟨k', ?_, other⟩
    rw [Scan.run_append, first, Option.bind_some, Scan.run_cons, comma, Scan.step_comma, if_pos call, Option.bind_some, rest]
  | @binary _ o _ _ _ _ _ _ left sign known right ih_left ih_right =>
    obtain ⟨k, first, -⟩ := ih_left s (.inr (by cases o <;> decide))
    obtain ⟨k', rest, other⟩ := ih_right ⟨s.opened, some (.operator o)⟩ (.inr (by cases o <;> decide))
    refine ⟨k', ?_, other⟩
    rw [Scan.run_append, first, Option.bind_some, Scan.run_cons, sign, Scan.step_operator, Option.bind_some, rest]
  | negation sign known operand ih =>
    obtain ⟨k, rest, other⟩ := ih ⟨s.opened, some (.operator .minus)⟩ (.inr (by decide))
    refine ⟨k, ?_, other⟩
    rw [Scan.run_cons, sign, Scan.step_operator, Option.bind_some, rest]
  | factorial operand sign known ih =>
    obtain ⟨k, first, -⟩ := ih s (.inr (by decide))
    refine ⟨.bang, ?_, by decide⟩
    rw [Scan.run_append, first, Option.bind_some, Scan.run_singleton, sign]
    rfl
  | juxtaposition left right known ih_left ih_right =>
    obtain ⟨k, first, -⟩ := ih_left s (.inr (by decide))
    obtain ⟨k', rest, other⟩ := ih_right ⟨s.opened, some k⟩ (.inr (by decide))
    refine ⟨k', ?_, other⟩
    rw [Scan.run_append, first, Option.bind_some, rest]
  | number kind read =>
    refine ⟨.number, ?_, by decide⟩
    rw [Scan.run_singleton, kind]
    rfl
  | constant kind known nullary apart =>
    refine ⟨.name, ?_, by decide⟩
    rw [Scan.run_singleton, kind]
    rfl
  | group opening content closing ih =>
    obtain ⟨k, inside, other⟩ := ih ⟨(s.last == some .name) :: s.opened, some .opening⟩ (.inr le_rfl)
    refine ⟨.closing, ?_, by decide⟩
    rw [Scan.run_cons, opening, Scan.step_opening, Option.bind_some, Scan.run_append, inside, Option.bind_some,
      Scan.run_singleton, closing, Scan.step_closing, if_neg (by simp [other]), List.tail_cons]
  | call name known opening content closing ih =>
    obtain ⟨k, inside, other⟩ := ih ⟨true :: s.opened, some .opening⟩ (.inl rfl)
    refine ⟨.closing, ?_, by decide⟩
    rw [Scan.run_cons, name, Scan.step_name, Option.bind_some, Scan.run_cons, opening, Scan.step_opening,
      Option.bind_some, beq_self_eq_true, Scan.run_append, inside, Option.bind_some, Scan.run_singleton, closing,
      Scan.step_closing, if_neg (by simp), List.tail_cons]
  | emptyCall name known opening closing =>
    refine ⟨.closing, ?_, by decide⟩
    rw [Scan.run_cons, name, Scan.step_name, Option.bind_some, Scan.run_cons, opening, Scan.step_opening,
      Option.bind_some, beq_self_eq_true, Scan.run_singleton, closing, Scan.step_closing, if_neg (by simp), List.tail_cons]
  | reuse allowed => cases allowed
  | emptyReuse allowed => cases allowed

theorem Phrase.callsFollowNames (h : Phrase c false next .sum ts e) : CallsFollowNames ts := by
  obtain ⟨k, scanned, -⟩ := h.scan ⟨[], none⟩ (.inr le_rfl)
  rw [CallsFollowNames, scanned]
  rfl

/-- What a scan finds out about a phrase of the extended grammar. -/
structure Scanned (c : Catalog) (next : Option TokenKind) (l : Level) (ts : List Token) (e : Expression)
    (s s' : Scan) : Prop where
  strict : Phrase c false next l ts e
  opened : s'.opened = s.opened
  list : e.isList = true → s.opened.head? = some true
  apart : s'.last = some .name → next ≠ some .opening

/-- A scan that passes the tokens of a phrase finds it to be one of the grammar. -/
def Scans (c : Catalog) (next : Option TokenKind) (l : Level) (ts : List Token) (e : Expression) : Prop :=
  ∀ ⦃s s' : Scan⦄, s.run ts = some s' → Scanned c next l ts e s s'

namespace Scans

variable {a b : Expression} {us : List Token} {n o q t : Token} {p : Operator} {entry star : Entry} {value : Float}

theorem loosen {k : Level} (h : Scans c next l ts e) (le : k ≤ l) : Scans c next k ts e := by
  intro s s' pass
  have inner := h pass
  exact ⟨inner.strict.loosen le, inner.opened, inner.list, inner.apart⟩

/-- The comma passes only in a call. -/
theorem argument (comma : t.kind = .comma) (before : Scans c (some .comma) .arguments ts a) (last : Scans c next .sum us b) :
    Scans c next .arguments (ts ++ t :: us) (.arguments (a.asArguments ++ [b])) := by
  intro s s' pass
  obtain ⟨s₁, first, pass⟩ := Scan.run_append_eq_some.1 pass
  obtain ⟨s₂, stepped, rest⟩ := Scan.run_cons_eq_some.1 pass
  rw [comma, Scan.step_comma_eq_some] at stepped
  obtain ⟨call, rfl⟩ := stepped
  have left := before first
  have right := last rest
  rw [left.opened] at call
  exact ⟨.argument left.strict comma right.strict, right.opened.trans left.opened, fun _ => call, right.apart⟩

theorem binary (sign : t.kind = .operator p) (known : c.operator? p.symbol = some entry)
    (left : Scans c (some (.operator p)) p.leftLevel ts a) (right : Scans c next p.rightLevel us b) :
    Scans c next p.resultLevel (ts ++ t :: us) ⟨.reference entry, some a, some b⟩ := by
  intro s s' pass
  obtain ⟨s₁, first, pass⟩ := Scan.run_append_eq_some.1 pass
  rw [Scan.run_cons, sign, Scan.step_operator, Option.bind_some] at pass
  have before := left first
  have after := right pass
  exact ⟨.binary before.strict sign known after.strict, after.opened.trans before.opened, by simp [isList], after.apart⟩

theorem negation (sign : t.kind = .operator .minus) (known : c.operator? "-" = some entry)
    (operand : Scans c next .unary ts a) : Scans c next .unary (t :: ts) ⟨.reference entry, none, some a⟩ := by
  intro s s' pass
  rw [Scan.run_cons, sign, Scan.step_operator, Option.bind_some] at pass
  have inner := operand pass
  exact ⟨.negation sign known inner.strict, inner.opened, by simp [isList], inner.apart⟩

theorem factorial (sign : t.kind = .bang) (known : c.operator? "!" = some entry) (operand : Scans c (some .bang) .run ts a) :
    Scans c next .run (ts ++ [t]) ⟨.reference entry, some a, none⟩ := by
  intro s s' pass
  obtain ⟨s₁, first, pass⟩ := Scan.run_append_eq_some.1 pass
  rw [Scan.run_singleton, sign] at pass
  cases pass
  have inner := operand first
  exact ⟨.factorial inner.strict sign known, inner.opened, by simp [isList], by simp⟩

theorem juxtaposition (known : c.operator? "*" = some star) (single : (a.beside star b).isList = false)
    (left : Scans c (us.head?.map Token.kind) .run ts a) (right : Scans c next .element us b) :
    Scans c next .run (ts ++ us) (a.beside star b) := by
  intro s s' pass
  obtain ⟨s₁, first, pass⟩ := Scan.run_append_eq_some.1 pass
  have before := left first
  have after := right pass
  exact ⟨.juxtaposition before.strict after.strict known, after.opened.trans before.opened, by simp [single], after.apart⟩

theorem number (kind : t.kind = .number) (read : Decimal.read? t.text = some value) :
    Scans c next .element [t] (.literal value) := by
  intro s s' pass
  rw [Scan.run_singleton, kind] at pass
  cases pass
  exact ⟨.number kind read, rfl, by simp [isList, literal], by simp⟩

theorem constant (kind : t.kind = .name) (known : c.lookup? t.text = some entry) (nullary : entry.kind = .nullary)
    (apart : next ≠ some .opening) : Scans c next .element [t] (.reference entry) := by
  intro s s' pass
  rw [Scan.run_singleton, kind] at pass
  cases pass
  exact ⟨.constant kind known nullary apart, rfl, by simp [isList, reference], fun _ => apart⟩

theorem group (opening : o.kind = .opening) (closing : q.kind = .closing) (single : e.isList = false)
    (content : Scans c (some .closing) .sum ts e) : Scans c next .element (o :: (ts ++ [q])) e := by
  intro s s' pass
  rw [Scan.run_cons, opening, Scan.step_opening, Option.bind_some] at pass
  obtain ⟨s₁, inside, pass⟩ := Scan.run_append_eq_some.1 pass
  rw [Scan.run_singleton, closing, Scan.step_closing_eq_some] at pass
  obtain ⟨-, rfl⟩ := pass
  have inner := content inside
  exact ⟨.group opening inner.strict closing, by rw [inner.opened]; rfl, by simp [single], by simp⟩

theorem call (name : n.kind = .name) (known : c.lookup? n.text = some entry) (opening : o.kind = .opening)
    (closing : q.kind = .closing) (content : Scans c (some .closing) .arguments ts e) :
    Scans c next .element (n :: o :: (ts ++ [q])) ((reference entry).withRight e) := by
  intro s s' pass
  rw [Scan.run_cons, name, Scan.step_name, Option.bind_some, Scan.run_cons, opening, Scan.step_opening,
    Option.bind_some] at pass
  obtain ⟨s₁, inside, pass⟩ := Scan.run_append_eq_some.1 pass
  rw [Scan.run_singleton, closing, Scan.step_closing_eq_some] at pass
  obtain ⟨-, rfl⟩ := pass
  have inner := content inside
  exact ⟨.call name known opening inner.strict closing, by rw [inner.opened]; rfl, by simp [isList, withRight, reference],
    by simp⟩

theorem emptyCall (regular : c.Regular) (name : n.kind = .name) (known : c.lookup? n.text = some entry)
    (opening : o.kind = .opening) (closing : q.kind = .closing) : Scans c next .element [n, o, q] (.emptyCall entry) := by
  intro s s' pass
  rw [Scan.run_cons, name, Scan.step_name, Option.bind_some, Scan.run_cons, opening, Scan.step_opening,
    Option.bind_some, Scan.run_singleton, closing, Scan.step_closing_eq_some] at pass
  obtain ⟨-, rfl⟩ := pass
  have kind := (regular.named known).kind
  exact ⟨.emptyCall name known opening closing, rfl, by simp [(wellFormed_emptyCall kind).root], by simp⟩

/-- A list of arguments passes only in a call, where a name would stand right before the group. -/
theorem reuse (opening : o.kind = .opening) (several : e.isList = true)
    (callee : Scans c (some .opening) .run ts (.reference entry)) (content : Scans c (some .closing) .arguments us e) :
    Scans c next .run (ts ++ o :: (us ++ [q])) ((reference entry).withRight e) := by
  intro s s' pass
  obtain ⟨s₁, first, pass⟩ := Scan.run_append_eq_some.1 pass
  rw [Scan.run_cons, opening, Scan.step_opening, Option.bind_some] at pass
  obtain ⟨s₂, inside, -⟩ := Scan.run_append_eq_some.1 pass
  have named : s₁.last = some .name := by simpa using (content inside).list several
  exact absurd rfl ((callee first).apart named)

theorem emptyReuse (opening : o.kind = .opening) (closing : q.kind = .closing)
    (callee : Scans c (some .opening) .run ts (.reference entry)) : Scans c next .run (ts ++ [o, q]) (.reference entry) := by
  intro s s' pass
  obtain ⟨s₁, first, pass⟩ := Scan.run_append_eq_some.1 pass
  rw [Scan.run_cons, opening, Scan.step_opening, Option.bind_some, Scan.run_singleton, closing,
    Scan.step_closing_eq_some] at pass
  have named : s₁.last = some .name := by simpa using pass.1
  exact absurd rfl ((callee first).apart named)

end Scans

/-- A phrase of the extended grammar is one of the grammar if its calls follow names. -/
theorem Phrase.scans (regular : c.Regular) (h : Phrase c true next l ts e) : Scans c next l ts e := by
  induction h with
  | loosen _ le ih => exact ih.loosen le
  | argument _ comma _ ih_before ih_last => exact .argument comma ih_before ih_last
  | binary _ sign known _ ih_left ih_right => exact .binary sign known ih_left ih_right
  | negation sign known _ ih => exact .negation sign known ih
  | factorial _ sign known ih => exact .factorial sign known ih
  | juxtaposition left right known ih_left ih_right =>
    have single := (left.juxtaposition right known).not_isList regular (by decide)
    exact .juxtaposition known single ih_left ih_right
  | number kind read => exact .number kind read
  | constant kind known nullary apart => exact .constant kind known nullary apart
  | group opening content closing ih => exact .group opening closing (content.not_isList regular le_rfl) ih
  | call name known opening _ closing ih => exact .call name known opening closing ih
  | emptyCall name known opening closing => exact .emptyCall regular name known opening closing
  | reuse _ _ _ opening _ several _ ih_callee ih => exact .reuse opening several ih_callee ih
  | emptyReuse _ _ _ opening closing ih => exact .emptyReuse opening closing ih

/-- The extension of the grammar shows only in groups that follow no name. -/
theorem Phrase.strict (regular : c.Regular) (h : Phrase c true next .sum ts e) (calls : CallsFollowNames ts) :
    Phrase c false next .sum ts e := by
  obtain ⟨s', pass⟩ := Option.isSome_iff_exists.1 calls
  exact (h.scans regular pass).strict

end Reckoner.Grammar
