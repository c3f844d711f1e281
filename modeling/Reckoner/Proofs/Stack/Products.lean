import Reckoner.Proofs.Stack.Marks

/-!
# Products that are not written

Two operands side by side are one node as long as the first one has its right side free. Where it
has not, a product is put in, and only there: the tree of a text shows a product sign exactly if
the text has one or crowds an operand so.
-/

namespace Reckoner.Grammar

open Assembly Expression

/-- Somewhere in the tokens an operand begins behind a run that begins where one is asked for, and the node of that run
has a right operand already. -/
def Crowded (c : Catalog) (tokens : List Token) : Prop :=
  ∃ vs us ws rest a b, tokens = vs ++ us ++ ws ++ rest ∧ AsksOperand vs ∧
    Phrase c true (ws.head?.map Token.kind) .run us a ∧ Phrase c true (rest.head?.map Token.kind) .element ws b ∧
    a.right.isSome = true

/-- A product sign is written among the tokens `ts`, or the text that they belong to crowds an operand. -/
def HasProduct (c : Catalog) (tokens ts : List Token) : Prop :=
  (∃ t ∈ ts, t.kind = .operator .star) ∨ Crowded c tokens

variable {c : Catalog} {next : Option TokenKind} {l : Level} {tokens ts us : List Token} {e : Expression}
  {t : Token} {root : Expression}

theorem eq_element_of_le (le : .element ≤ l) : l = .element := by
  cases l with
  | element => rfl
  | _ => exact absurd le (by decide)

theorem HasProduct.part (h : HasProduct c tokens us) (within : us ⊆ ts) : HasProduct c tokens ts := by
  rcases h with ⟨t, member, star⟩ | crowded
  · exact .inl ⟨t, within member, star⟩
  · exact .inr crowded

theorem asksOperand_snoc (ts : List Token) (asks : t.kind.asksOperand = true) : AsksOperand (ts ++ [t]) := by
  rw [asksOperand_append (List.cons_ne_nil t [])]
  simpa [AsksOperand] using asks

/-- Where the tokens `ts` of a phrase stand in `tokens`, a product sign in its tree is written in it, or the text crowds an
operand. -/
def Accounts (c : Catalog) (tokens : List Token) (next : Option TokenKind) (l : Level) (ts : List Token) (e : Expression) :
    Prop :=
  ∀ before after, (l = .element ∨ AsksOperand before) → next = after.head?.map Token.kind →
    tokens = before ++ (ts ++ after) → .sign "*" ∈ e.marks → HasProduct c tokens ts

namespace Accounts

variable {a b : Expression} {n o q : Token} {p : Operator} {entry star : Entry}

theorem loosen {k : Level} (h : Accounts c tokens next l ts e) (le : k ≤ l) : Accounts c tokens next k ts e := by
  intro before after asks behind whole shown
  refine h before after (asks.imp_left ?_) behind whole shown
  rintro rfl
  exact eq_element_of_le le

/-- A tree without a product sign. -/
theorem of_not_mem (none : .sign "*" ∉ e.marks) : Accounts c tokens next l ts e := by
  intro before after asks behind whole shown
  exact absurd shown none

theorem argument (content : Content a) (comma : t.kind = .comma) (first : Accounts c tokens (some .comma) .arguments ts a)
    (last : Accounts c tokens next .sum us b) :
    Accounts c tokens next .arguments (ts ++ t :: us) (.arguments (a.asArguments ++ [b])) := by
  intro before after asks behind whole shown
  have asks := asks.resolve_left (by decide)
  rw [marks_snoc content] at shown
  rcases List.mem_append.1 shown with left | right
  · have found := first before (t :: (us ++ after)) (.inr asks) (by simp [comma]) (by simp [whole]) left
    exact found.part (List.subset_append_left _ _)
  · have asked : AsksOperand (before ++ ts ++ [t]) := asksOperand_snoc _ (by rw [comma]; rfl)
    have found := last _ after (.inr asked) behind (by simp [whole]) right
    exact found.part fun u member => by simp [member]

theorem binary (regular : c.Regular) (sign : t.kind = .operator p) (known : c.operator? p.symbol = some entry)
    (left : Accounts c tokens (some (.operator p)) p.leftLevel ts a) (right : Accounts c tokens next p.rightLevel us b) :
    Accounts c tokens next p.resultLevel (ts ++ t :: us) ⟨.reference entry, some a, some b⟩ := by
  intro before after asks behind whole shown
  have asks := asks.resolve_left (by cases p <;> decide)
  rw [marks_of_reference, mark_of_sign regular known] at shown
  rcases List.mem_append.1 shown with first | rest
  · have found := left before (t :: (us ++ after)) (.inr asks) (by simp [sign]) (by simp [whole]) first
    exact found.part (List.subset_append_left _ _)
  · rcases List.mem_cons.1 rest with here | second
    · have star : p = .star := by cases p <;> simp [Operator.symbol] at here ⊢
      exact .inl ⟨t, by simp, by rw [sign, star]⟩
    · have asked : AsksOperand (before ++ ts ++ [t]) := asksOperand_snoc _ (by rw [sign]; rfl)
      have found := right _ after (.inr asked) behind (by simp [whole]) second
      exact found.part fun u member => by simp [member]

theorem negation (regular : c.Regular) (sign : t.kind = .operator .minus) (known : c.operator? "-" = some entry)
    (operand : Accounts c tokens next .unary ts a) :
    Accounts c tokens next .unary (t :: ts) ⟨.reference entry, none, some a⟩ := by
  intro before after asks behind whole shown
  rw [marks_of_reference, mark_of_sign (p := .minus) regular known] at shown
  rcases List.mem_cons.1 shown with here | inside
  · simp [Operator.symbol] at here
  · have asked : AsksOperand (before ++ [t]) := asksOperand_snoc _ (by rw [sign]; rfl)
    have found := operand _ after (.inr asked) behind (by simp [whole]) inside
    exact found.part (List.subset_cons_self _ _)

theorem factorial (regular : c.Regular) (sign : t.kind = .bang) (known : c.operator? "!" = some entry)
    (operand : Accounts c tokens (some .bang) .run ts a) :
    Accounts c tokens next .run (ts ++ [t]) ⟨.reference entry, some a, none⟩ := by
  intro before after asks behind whole shown
  rw [marks_of_reference, mark_of_bang regular known] at shown
  rcases List.mem_append.1 shown with inside | here
  · have found := operand before (t :: after) (asks.imp_left (by simp)) (by simp [sign]) (by simp [whole]) inside
    exact found.part (List.subset_append_left _ _)
  · simp at here

/-- A product is put in where the right side of the run is taken, and there the text crowds the element. -/
theorem juxtaposition (left : Phrase c true (us.head?.map Token.kind) .run ts a) (right : Phrase c true next .element us b)
    (in_left : Accounts c tokens (us.head?.map Token.kind) .run ts a) (in_right : Accounts c tokens next .element us b) :
    Accounts c tokens next .run (ts ++ us) (a.beside star b) := by
  intro before after asks behind whole shown
  have asks := asks.resolve_left (by decide)
  obtain ⟨u, rest, rfl, -⟩ := right.element_head le_rfl
  by_cases taken : a.right.isSome = true
  · exact .inr ⟨before, ts, u :: rest, after, a, b, by simp [whole], asks, left, behind ▸ right, taken⟩
  · rw [beside, if_neg taken, marks_withRight (by simpa using taken)] at shown
    rcases List.mem_append.1 shown with first | second
    · have found := in_left before (u :: rest ++ after) (.inr asks) rfl (by simp [whole]) first
      exact found.part (List.subset_append_left _ _)
    · have found := in_right (before ++ ts) after (.inl rfl) behind (by simp [whole]) second
      exact found.part (List.subset_append_right _ _)

theorem group (opening : o.kind = .opening) (closing : q.kind = .closing)
    (content : Accounts c tokens (some .closing) .sum ts e) : Accounts c tokens next .element (o :: (ts ++ [q])) e := by
  intro before after asks behind whole shown
  have asked : AsksOperand (before ++ [o]) := asksOperand_snoc _ (by rw [opening]; rfl)
  have found := content _ (q :: after) (.inr asked) (by simp [closing]) (by simp [whole]) shown
  exact found.part fun u member => by simp [member]

theorem call (known : c.lookup? n.text = some entry) (opening : o.kind = .opening) (closing : q.kind = .closing)
    (content : Accounts c tokens (some .closing) .arguments ts e) :
    Accounts c tokens next .element (n :: o :: (ts ++ [q])) ((reference entry).withRight e) := by
  intro before after asks behind whole shown
  rw [marks_call known] at shown
  have inside : .sign "*" ∈ e.marks := by simpa using shown
  have asked : AsksOperand (before ++ [n] ++ [o]) := asksOperand_snoc _ (by rw [opening]; rfl)
  have found := content _ (q :: after) (.inr asked) (by simp [closing]) (by simp [whole]) inside
  exact found.part fun u member => by simp [member]

theorem reuse (opening : o.kind = .opening) (closing : q.kind = .closing)
    (callee : Accounts c tokens (some .opening) .run ts (reference entry))
    (content : Accounts c tokens (some .closing) .arguments us e) :
    Accounts c tokens next .run (ts ++ o :: (us ++ [q])) ((reference entry).withRight e) := by
  intro before after asks behind whole shown
  have asks := asks.resolve_left (by decide)
  rw [marks_withRight rfl] at shown
  rcases List.mem_append.1 shown with first | inside
  · have found := callee before (o :: (us ++ q :: after)) (.inr asks) (by simp [opening]) (by simp [whole]) first
    exact found.part (List.subset_append_left _ _)
  · have asked : AsksOperand (before ++ ts ++ [o]) := asksOperand_snoc _ (by rw [opening]; rfl)
    have found := content _ (q :: after) (.inr asked) (by simp [closing]) (by simp [whole]) inside
    exact found.part fun u member => by simp [member]

theorem emptyReuse (opening : o.kind = .opening) (callee : Accounts c tokens (some .opening) .run ts (reference entry)) :
    Accounts c tokens next .run (ts ++ [o, q]) (reference entry) := by
  intro before after asks behind whole shown
  have asks := asks.resolve_left (by decide)
  have found := callee before (o :: q :: after) (.inr asks) (by simp [opening]) (by simp [whole]) shown
  exact found.part (List.subset_append_left _ _)

end Accounts

/-- A product sign in the tree of a phrase is written in it, or the text crowds an operand. -/
theorem Phrase.accounts (regular : c.Regular) (h : Phrase c true next l ts e) : Accounts c tokens next l ts e := by
  induction h with
  | loosen _ le ih => exact ih.loosen le
  | argument first comma _ ih_first ih_last => exact .argument (first.denotes regular).2 comma ih_first ih_last
  | binary _ sign known _ ih_left ih_right => exact .binary regular sign known ih_left ih_right
  | negation sign known _ ih => exact .negation regular sign known ih
  | factorial _ sign known ih => exact .factorial regular sign known ih
  | juxtaposition left right _ ih_left ih_right => exact .juxtaposition left right ih_left ih_right
  | number => exact .of_not_mem (by simp [marks_literal])
  | constant _ known => exact .of_not_mem (by simp [marks_reference, Catalog.mark_of_lookup? known])
  | group opening _ closing ih => exact .group opening closing ih
  | call _ known opening _ closing ih => exact .call known opening closing ih
  | emptyCall _ known => exact .of_not_mem (by simp [marks_emptyCall, Catalog.mark_of_lookup? known])
  | reuse _ _ _ opening _ _ closing ih_callee ih => exact .reuse opening closing ih_callee ih
  | emptyReuse _ _ _ opening _ ih => exact .emptyReuse opening ih

/-- A crowded operand is a factor of a product. -/
theorem Crowded.shown (regular : c.Regular) (crowded : Crowded c tokens) (built : c.expression tokens = .ok root) :
    .sign "*" ∈ root.marks := by
  obtain ⟨vs, us, ws, rest, a, b, rfl, asks, run, element, taken⟩ := crowded
  obtain ⟨t, more, rfl, other⟩ := element.element_head le_rfl
  have apart : ((t :: more).head?.map Token.kind).bind TokenKind.operator? = none := other
  obtain ⟨star, known, -, -⟩ := regular.sign .star
  have sign : star.mark = .sign "*" := mark_of_sign (p := .star) regular known
  have shaped := ((run.denotes regular).1 (by decide)).shaped
  -- The run is put down where an operand is awaited, and the operand that crowds it is put beside it.
  obtain ⟨whole, read⟩ := feedAll_of_expression built
  obtain ⟨_, first, last⟩ := feedAll_of_append read
  obtain ⟨start, opened, ran⟩ := feedAll_of_append first
  obtain ⟨l, below⟩ := (reached_of_feedAll regular opened).awaiting_of_asksOperand asks
  have settled := (run.reads regular).settles le_rfl start.groups below.slot
  rw [settleBefore_of_not_operator apart] at settled
  cases ran.symm.trans settled
  have placed := (element.reads regular).places le_rfl start.groups (some a) below.slot (by rintro _ ⟨⟩; exact shaped)
  obtain ⟨stack, done, rfl⟩ := onStack_eq_ok (placed.symm.trans last)
  rw [onTop, place_beside shaped known] at done
  refine marks_of_read regular built read (marksOn_settleBefore done ?_)
  simp [beside, taken, marks_of_reference, sign]

/-- The tree of a text shows a product sign exactly if the text has one or crowds an operand. -/
theorem star_mem_marks_iff (regular : c.Regular) (built : c.expression tokens = .ok root) :
    .sign "*" ∈ root.marks ↔ HasProduct c tokens tokens := by
  have phrase := (expression_eq_ok_iff regular).1 built
  constructor
  · intro shown
    exact phrase.accounts regular [] [] (.inr rfl) rfl (by simp) shown
  · rintro (⟨t, member, star⟩ | crowded)
    · have written : .sign "*" ∈ tokens.filterMap Token.mark? :=
        List.mem_filterMap.2 ⟨t, member, mark_operator star⟩
      exact (phrase.shown regular []).sublist.subset written
    · exact crowded.shown regular built

end Reckoner.Grammar
