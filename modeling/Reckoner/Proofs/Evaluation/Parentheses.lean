import Reckoner.Proofs.Evaluation.Alike
import Reckoner.Proofs.Grammar.Exact
import Reckoner.Proofs.Grammar.Follow
import Reckoner.Proofs.Grammar.Lone

/-!
# Parentheses in place of numbers

A number may be replaced by an expression of the same value in parentheses, except
directly behind a name, where the parentheses would be a call. The tree changes
with the expression in them, which may take a factor on its right or be taken for
one of a product; what it is evaluated to stays.
-/

namespace Reckoner

open Expression Grammar

/-- `Swapped x group previous ts us`: behind a token of the kind `previous`, `us` is `ts` with some of the
tokens `x` replaced by `group`, none of them directly behind a name. -/
inductive Swapped (x : Token) (group : List Token) : Option TokenKind → List Token → List Token → Prop where
  | nil {previous} : Swapped x group previous [] []
  | keep {previous t ts us} (rest : Swapped x group (some t.kind) ts us) : Swapped x group previous (t :: ts) (t :: us)
  | swap {previous ts us} (apart : previous ≠ some .name) (rest : Swapped x group (some x.kind) ts us) :
      Swapped x group previous (x :: ts) (group ++ us)

namespace Swapped

variable {x t : Token} {group ts us ws before after : List Token} {previous : Option TokenKind}

theorem refl (ts : List Token) (previous : Option TokenKind) : Swapped x group previous ts ts := by
  induction ts generalizing previous with
  | nil => exact .nil
  | cons t rest ih => exact .keep (ih _)

/-- One token is replaced. -/
theorem single (apart : (lastKind before).or previous ≠ some .name) :
    Swapped x group previous (before ++ x :: after) (before ++ (group ++ after)) := by
  induction before generalizing previous with
  | nil => exact .swap apart (refl after _)
  | cons t rest ih =>
    refine .keep (ih ?_)
    rw [lastKind_cons, Option.or_assoc, Option.some_or] at apart
    exact apart

/-- A replacement in two parts is made in each of them. -/
theorem of_append (h : Swapped x group previous (ts ++ us) ws) :
    ∃ vs ws', ws = vs ++ ws' ∧ Swapped x group previous ts vs ∧ Swapped x group ((lastKind ts).or previous) us ws' := by
  induction ts generalizing previous ws with
  | nil => exact ⟨[], ws, rfl, .nil, h⟩
  | cons t rest ih =>
    rw [lastKind_cons, Option.or_assoc, Option.some_or]
    rw [List.cons_append] at h
    cases h with
    | keep h =>
      obtain ⟨vs, ws', rfl, first, second⟩ := ih h
      exact ⟨t :: vs, ws', rfl, .keep first, second⟩
    | swap apart h =>
      obtain ⟨vs, ws', rfl, first, second⟩ := ih h
      exact ⟨group ++ vs, ws', by rw [List.append_assoc], .swap apart first, second⟩

/-- Only numbers are replaced. -/
theorem of_cons (number : x.kind = .number) (h : Swapped x group previous (t :: ts) ws) (other : t.kind ≠ .number) :
    ∃ us, ws = t :: us ∧ Swapped x group (some t.kind) ts us := by
  cases h with
  | keep rest => exact ⟨_, rfl, rest⟩
  | swap => exact absurd number other

theorem of_singleton (number : x.kind = .number) (h : Swapped x group previous [t] ws) (other : t.kind ≠ .number) :
    ws = [t] := by
  obtain ⟨us, rfl, rest⟩ := h.of_cons number other
  cases rest
  rfl

theorem eq_of_no_number (number : x.kind = .number) (h : Swapped x group previous ts ws)
    (other : ∀ t ∈ ts, t.kind ≠ .number) : ws = ts := by
  induction ts generalizing previous ws with
  | nil => cases h; rfl
  | cons t rest ih =>
    obtain ⟨us, rfl, later⟩ := h.of_cons number (other t List.mem_cons_self)
    rw [ih later fun t member => other t (List.mem_cons_of_mem _ member)]

/-- Behind a name the first token stays. -/
theorem head_eq (h : Swapped x group (some .name) ts ws) : ws.head? = ts.head? := by
  cases h with
  | nil => rfl
  | keep => rfl
  | swap apart => exact absurd rfl apart

end Swapped

theorem Alike.refl {e : Expression} (single : e.isList = false) : Alike e e := ⟨single, single, rfl⟩

/-- What is alike as a content is alike, unless it is an argument list. -/
theorem AlikeContent.alike {e e' : Expression} (h : AlikeContent e e') (single : e.isList = false) : Alike e e' := by
  cases h with
  | single h => exact h
  | list => cases single

theorem isList_beside {a b : Expression} (star : Entry) (single : a.isList = false) :
    (a.beside star b).isList = false := by
  unfold beside
  split
  · rfl
  · exact single

/-- In parentheses `group` has the value of the number `x`. -/
structure Replaces (c : Catalog) (x : Token) (group : List Token) : Prop where
  number : x.kind = .number
  phrase (next : Option TokenKind) : ∃ content, Phrase c true next .element group content ∧
    ∀ value, Decimal.read? x.text = some value → Alike (.literal value) content

variable {c : Catalog} {next next' previous : Option TokenKind} {l : Level} {ts us group : List Token} {x : Token}
  {e e' a a' b b' content : Expression} {v : Float} {star : Entry}

theorem Alike.beside (regular : c.Regular) (known : c.operator? "*" = some star) (left : Phrase c true next .run ts a)
    (left' : Phrase c true next' .run us a') (ha : Alike a a') (hb : Alike b b') :
    Alike (a.beside star b) (a'.beside star b') where
  single := isList_beside star ha.single
  single' := isList_beside star ha.single'
  value := by
    rw [whole_beside regular known ((left.denotes regular).1 (by decide)) (left.takesFactor regular) hb.single,
      whole_beside regular known ((left'.denotes regular).1 (by decide)) (left'.takesFactor regular) hb.single',
      ha.value, hb.value]

/-- Where `group` replaces numbers `x` among the tokens of a phrase, the tokens are still a phrase, and its tree is alike. -/
def Swaps (c : Catalog) (x : Token) (group : List Token) (l : Level) (ts : List Token) (e : Expression) : Prop :=
  ∀ ⦃previous us⦄ upcoming, Swapped x group previous ts us → (lastKind ts = some .name → upcoming ≠ some .opening) →
    ∃ e', Phrase c true upcoming l us e' ∧ AlikeContent e e'

namespace Swaps

variable {t n o q : Token} {p : Operator} {entry : Entry} {value : Float}

theorem loosen {k : Level} (h : Swaps c x group l ts e) (le : k ≤ l) : Swaps c x group k ts e := by
  intro previous us upcoming swapped fits
  obtain ⟨e', phrase, alike⟩ := h upcoming swapped fits
  exact ⟨e', phrase.loosen le, alike⟩

theorem argument (number : x.kind = .number) (comma : t.kind = .comma) (single : b.isList = false)
    (before : Swaps c x group .arguments ts a) (last : Swaps c x group .sum us b) :
    Swaps c x group .arguments (ts ++ t :: us) (.arguments (a.asArguments ++ [b])) := by
  intro previous ws upcoming swapped fits
  obtain ⟨vs, ws, rfl, first, second⟩ := swapped.of_append
  obtain ⟨ws, rfl, rest⟩ := second.of_cons number (by simp [comma])
  obtain ⟨a', before', alike⟩ := before (some .comma) first (by simp)
  obtain ⟨b', last', alike'⟩ := last upcoming rest fun name => fits (by simp [name])
  exact ⟨_, before'.argument comma last', alike.snoc (alike'.alike single)⟩

theorem binary (number : x.kind = .number) (sign : t.kind = .operator p) (known : c.operator? p.symbol = some entry)
    (left : Swaps c x group p.leftLevel ts a) (right : Swaps c x group p.rightLevel us b) :
    Swaps c x group p.resultLevel (ts ++ t :: us) ⟨.reference entry, some a, some b⟩ := by
  intro previous ws upcoming swapped fits
  obtain ⟨vs, ws, rfl, first, second⟩ := swapped.of_append
  obtain ⟨ws, rfl, rest⟩ := second.of_cons number (by simp [sign])
  obtain ⟨a', left', alike⟩ := left (some (.operator p)) first (by simp)
  obtain ⟨b', right', alike'⟩ := right upcoming rest fun name => fits (by simp [name])
  exact ⟨_, left'.binary sign known right', .single (.reference _ (.some alike) (.some alike'))⟩

theorem negation (number : x.kind = .number) (sign : t.kind = .operator .minus) (known : c.operator? "-" = some entry)
    (operand : Swaps c x group .unary ts a) : Swaps c x group .unary (t :: ts) ⟨.reference entry, none, some a⟩ := by
  intro previous us upcoming swapped fits
  obtain ⟨ws, rfl, rest⟩ := swapped.of_cons number (by simp [sign])
  obtain ⟨a', operand', alike⟩ := operand upcoming rest fun name => fits (by simp [name])
  exact ⟨_, .negation sign known operand', .single (.reference _ .none (.some alike))⟩

theorem factorial (number : x.kind = .number) (sign : t.kind = .bang) (known : c.operator? "!" = some entry)
    (operand : Swaps c x group .run ts a) : Swaps c x group .run (ts ++ [t]) ⟨.reference entry, some a, none⟩ := by
  intro previous us upcoming swapped fits
  obtain ⟨vs, ws, rfl, first, second⟩ := swapped.of_append
  obtain rfl := second.of_singleton number (by simp [sign])
  obtain ⟨a', operand', alike⟩ := operand (some .bang) first (by simp)
  exact ⟨_, operand'.factorial sign known, .single (.reference _ (.some alike) .none)⟩

/-- Behind a name at the end of the left part no group comes to stand. -/
theorem juxtaposition (regular : c.Regular) (left : Phrase c true (us.head?.map Token.kind) .run ts a)
    (right : Phrase c true next .element us b) (known : c.operator? "*" = some star)
    (in_left : Swaps c x group .run ts a) (in_right : Swaps c x group .element us b) :
    Swaps c x group .run (ts ++ us) (a.beside star b) := by
  intro previous ws upcoming swapped fits
  obtain ⟨vs, ws, rfl, first, second⟩ := swapped.of_append
  have apart : lastKind ts = some .name → ws.head?.map Token.kind ≠ some .opening := by
    intro name
    rw [name, Option.some_or] at second
    rw [second.head_eq]
    exact left.apart name
  obtain ⟨a', left', alike⟩ := in_left _ first apart
  obtain ⟨b', right', alike'⟩ := in_right upcoming second fun name => fits (by simp [name])
  have ha := alike.alike (left.not_isList regular (by decide))
  have hb := alike'.alike (right.not_isList regular (by decide))
  exact ⟨_, left'.juxtaposition right' known, .single (.beside regular known left left' ha hb)⟩

/-- The number may be one that is replaced. -/
theorem number (replaces : Replaces c x group) (kind : t.kind = .number) (read : Decimal.read? t.text = some value) :
    Swaps c x group .element [t] (.literal value) := by
  intro previous us upcoming swapped fits
  cases swapped with
  | keep rest =>
    cases rest
    exact ⟨_, .number kind read, .single (.refl rfl)⟩
  | swap _ rest =>
    cases rest
    obtain ⟨content, phrase, alike⟩ := replaces.phrase upcoming
    rw [List.append_nil]
    exact ⟨content, phrase, .single (alike value read)⟩

theorem constant (number : x.kind = .number) (kind : t.kind = .name) (known : c.lookup? t.text = some entry)
    (nullary : entry.kind = .nullary) : Swaps c x group .element [t] (.reference entry) := by
  intro previous us upcoming swapped fits
  obtain rfl := swapped.of_singleton number (by simp [kind])
  exact ⟨_, .constant kind known nullary (fits (by simp [kind])), .single (.refl rfl)⟩

theorem enclosed (number : x.kind = .number) (opening : o.kind = .opening) (closing : q.kind = .closing)
    (content : Swaps c x group .sum ts e) : Swaps c x group .element (o :: (ts ++ [q])) e := by
  intro previous us upcoming swapped fits
  obtain ⟨ws, rfl, rest⟩ := swapped.of_cons number (by simp [opening])
  obtain ⟨vs, ws, rfl, first, second⟩ := rest.of_append
  obtain rfl := second.of_singleton number (by simp [closing])
  obtain ⟨e', content', alike⟩ := content (some .closing) first (by simp)
  exact ⟨e', .group opening content' closing, alike⟩

theorem call (number : x.kind = .number) (name : n.kind = .name) (known : c.lookup? n.text = some entry)
    (opening : o.kind = .opening) (closing : q.kind = .closing) (content : Swaps c x group .arguments ts e) :
    Swaps c x group .element (n :: o :: (ts ++ [q])) ((Expression.reference entry).withRight e) := by
  intro previous us upcoming swapped fits
  obtain ⟨ws, rfl, behind⟩ := swapped.of_cons number (by simp [name])
  obtain ⟨ws, rfl, rest⟩ := behind.of_cons number (by simp [opening])
  obtain ⟨vs, ws, rfl, first, second⟩ := rest.of_append
  obtain rfl := second.of_singleton number (by simp [closing])
  obtain ⟨e', content', alike⟩ := content (some .closing) first (by simp)
  exact ⟨_, .call name known opening content' closing, .single (.reference _ .none (.some alike))⟩

theorem emptyCall (regular : c.Regular) (number : x.kind = .number) (name : n.kind = .name)
    (known : c.lookup? n.text = some entry) (opening : o.kind = .opening) (closing : q.kind = .closing) :
    Swaps c x group .element [n, o, q] (.emptyCall entry) := by
  intro previous us upcoming swapped fits
  obtain rfl := swapped.eq_of_no_number number (by simp [name, opening, closing])
  have single := (wellFormed_emptyCall (regular.named known).kind).root
  exact ⟨_, .emptyCall name known opening closing, .single (.refl single)⟩

/-- The callee is a constant in parentheses, in which no number stands. -/
theorem reuse (number : x.kind = .number) (callee : Phrase c true (some .opening) .run ts (.reference entry))
    (nullary : entry.kind = .nullary) (opening : o.kind = .opening) (several : e.isList = true) (closing : q.kind = .closing)
    (content : Swaps c x group .arguments us e) :
    Swaps c x group .run (ts ++ o :: (us ++ [q])) ((Expression.reference entry).withRight e) := by
  intro previous ws upcoming swapped fits
  obtain ⟨vs, ws, rfl, first, second⟩ := swapped.of_append
  obtain rfl := first.eq_of_no_number number (callee.lone (by decide) rfl nullary).no_number
  obtain ⟨ws, rfl, rest⟩ := second.of_cons number (by simp [opening])
  obtain ⟨vs, ws, rfl, inner, last⟩ := rest.of_append
  obtain rfl := last.of_singleton number (by simp [closing])
  obtain ⟨e', content', alike⟩ := content (some .closing) inner (by simp)
  have several' : e'.isList = true := alike.isList_eq ▸ several
  exact ⟨_, .reuse rfl callee nullary opening content' several' closing, .single (.reference _ .none (.some alike))⟩

theorem emptyReuse (number : x.kind = .number) (callee : Phrase c true (some .opening) .run ts (.reference entry))
    (nullary : entry.kind = .nullary) (opening : o.kind = .opening) (closing : q.kind = .closing) :
    Swaps c x group .run (ts ++ [o, q]) (.reference entry) := by
  intro previous us upcoming swapped fits
  obtain ⟨vs, ws, rfl, first, second⟩ := swapped.of_append
  obtain rfl := first.eq_of_no_number number (callee.lone (by decide) rfl nullary).no_number
  obtain rfl := second.eq_of_no_number number (by simp [opening, closing])
  exact ⟨_, .emptyReuse rfl callee nullary opening closing, .single (.refl rfl)⟩

end Swaps

/-- A phrase in which numbers are replaced is a phrase with an alike tree. -/
theorem Grammar.Phrase.swaps (regular : c.Regular) (replaces : Replaces c x group) (h : Phrase c true next l ts e) :
    Swaps c x group l ts e := by
  have number := replaces.number
  induction h with
  | loosen _ le ih => exact ih.loosen le
  | argument _ comma last ih_before ih_last =>
    exact .argument number comma (last.not_isList regular le_rfl) ih_before ih_last
  | binary _ sign known _ ih_left ih_right => exact .binary number sign known ih_left ih_right
  | negation sign known _ ih => exact .negation number sign known ih
  | factorial _ sign known ih => exact .factorial number sign known ih
  | juxtaposition left right known ih_left ih_right => exact .juxtaposition regular left right known ih_left ih_right
  | number kind read => exact .number replaces kind read
  | constant kind known nullary => exact .constant number kind known nullary
  | group opening _ closing ih => exact .enclosed number opening closing ih
  | call name known opening _ closing ih => exact .call number name known opening closing ih
  | emptyCall name known opening closing => exact .emptyCall regular number name known opening closing
  | reuse _ callee nullary opening _ several closing _ ih =>
    exact .reuse number callee nullary opening several closing ih
  | emptyReuse _ callee nullary opening closing => exact .emptyReuse number callee nullary opening closing

/-- An expression without random numbers, in parentheses, may stand for a number of its value: what
is built then is evaluated to the same number, or fails with the same error. -/
theorem evaluate_parentheses (constants : List (String × Float)) {before inside after : List Token} {x o q : Token}
    {root content : Expression} {v : Float} {draws : Draws}
    (built : (Catalog.standard.withConstants constants).expression (before ++ x :: after) = .ok root)
    (number : x.kind = .number) (read : Decimal.read? x.text = some v) (apart : lastKind before ≠ some .name)
    (built' : (Catalog.standard.withConstants constants).expression inside = .ok content) (fixed : content.Fixed)
    (value : content.evaluate draws = .ok v) (opening : o.kind = .opening) (closing : q.kind = .closing) :
    ∃ root', (Catalog.standard.withConstants constants).expression (before ++ o :: (inside ++ q :: after)) = .ok root' ∧
      ∀ draws, root'.evaluate draws = root.evaluate draws := by
  have regular := Catalog.regular_withConstants constants
  have phrase := (expression_eq_ok_iff regular).1 built
  have inner := (expression_eq_ok_iff regular).1 built'
  have alike : Alike (.literal v) content := by
    refine ⟨rfl, inner.not_isList regular le_rfl, ?_⟩
    rw [(fixed.steady none).eq_pure value, whole_eq]
    rfl
  have replaces : Replaces (Catalog.standard.withConstants constants) x (o :: (inside ++ [q])) := by
    refine ⟨number, fun next => ⟨content, .group opening (inner.follow (by simp)) closing, fun w read' => ?_⟩⟩
    obtain rfl : v = w := Option.some.inj (read.symm.trans read')
    exact alike
  have swapped : Swapped x (o :: (inside ++ [q])) none (before ++ x :: after) (before ++ ((o :: (inside ++ [q])) ++ after)) :=
    .single (by rwa [Option.or_none])
  obtain ⟨root', phrase', same⟩ := phrase.swaps regular replaces none swapped (by simp)
  refine ⟨root', (expression_eq_ok_iff regular).2 (by simpa using phrase'), fun draws => ?_⟩
  rw [Expression.evaluate_eq, Expression.evaluate_eq, same.value none]

/-- With a constant `k` of the value two, `3 (k)!` is evaluated as `3 2  !` is. -/
theorem evaluate_parentheses_factor :
    ∃ v, Decimal.read? "2" = some v ∧
      let c := Catalog.standard.withConstants [("k", v)]
      ∃ root root', c.expression [⟨.number, "3", 0⟩, ⟨.number, "2", 2⟩, ⟨.bang, "!", 5⟩] = .ok root ∧
        c.expression [⟨.number, "3", 0⟩, ⟨.opening, "(", 2⟩, ⟨.name, "k", 3⟩, ⟨.closing, ")", 4⟩, ⟨.bang, "!", 5⟩] =
          .ok root' ∧ ∀ draws, root'.evaluate draws = root.evaluate draws := by
  obtain ⟨v, read⟩ : ∃ v, Decimal.read? "2" = some v := ⟨_, rfl⟩
  refine ⟨v, read, ?_⟩
  intro c
  obtain ⟨root, built⟩ : ∃ root, c.expression ([⟨.number, "3", 0⟩] ++ ⟨.number, "2", 2⟩ :: [⟨.bang, "!", 5⟩]) = .ok root :=
    ⟨_, rfl⟩
  have inner : c.expression [⟨.name, "k", 3⟩] = .ok (.reference (.constant "k" v "injected constant")) := rfl
  have fixed : (Expression.reference (.constant "k" v "injected constant")).Fixed := by
    intro n member entry operation
    obtain rfl : n = .reference (.constant "k" v "injected constant") := List.mem_singleton.1 member
    cases operation
    simp [Entry.constant, Entry.new]
  have value : (Expression.reference (.constant "k" v "injected constant")).evaluate (fun _ => 0) = .ok v := rfl
  obtain ⟨root', built', same⟩ := evaluate_parentheses (o := ⟨.opening, "(", 2⟩) (q := ⟨.closing, ")", 4⟩) [("k", v)] built
    rfl read (by decide) inner fixed value rfl rfl
  exact ⟨root, root', built, built', same⟩

end Reckoner
