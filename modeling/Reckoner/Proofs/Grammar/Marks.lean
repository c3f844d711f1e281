import Reckoner.Proofs.Expression.Marks
import Reckoner.Proofs.Grammar.Exact
import Reckoner.Proofs.Grammar.Groups

/-!
# Nothing is lost

The tree that is built from a list of tokens shows what the tokens show, in their order
and once each. The only marks that it adds are product signs between operands that stand
side by side. `Shown` says so of tokens and marks alone; that every phrase is shown goes by
induction on the grammar, each part behind the tokens before it.
-/

namespace Reckoner.Grammar

open Expression

/-- One operand ends with the tokens `before`, and another one begins with `after`. -/
def SideBySide (c : Catalog) (before after : List Token) : Prop :=
  ∃ vs ts us ws next a b, before = vs ++ ts ∧ after = us ++ ws ∧
    Phrase c true (after.head?.map Token.kind) .run ts a ∧ Phrase c true next .element us b

/-- Behind the tokens `before`, the marks are those of the tokens `after` in their order, and a product
sign may stand between two operands that are side by side. -/
inductive Shown (c : Catalog) : List Token → List Token → List Mark → Prop where
  | nil {before} : Shown c before [] []
  | token {before t after ms} (rest : Shown c (before ++ [t]) after ms) :
      Shown c before (t :: after) (t.mark?.toList ++ ms)
  | product {before t after ms} (operands : SideBySide c (before ++ [t]) after) (rest : Shown c (before ++ [t]) after ms) :
      Shown c before (t :: after) (t.mark?.toList ++ .sign "*" :: ms)

variable {c : Catalog} {next : Option TokenKind} {l : Level} {before ts us : List Token} {ms ns : List Mark}
  {e : Expression} {t : Token} {m : Mark}

theorem SideBySide.append (h : SideBySide c before us) (more : List Token) : SideBySide c before (us ++ more) := by
  obtain ⟨vs, ts, us, ws, next, a, b, rfl, rfl, left, right⟩ := h
  obtain ⟨t, rest, rfl, -⟩ := right.element_head le_rfl
  exact ⟨vs, ts, t :: rest, ws ++ more, next, a, b, rfl, by rw [List.append_assoc], left, right⟩

theorem SideBySide.ne_nil (h : SideBySide c before us) : us ≠ [] := by
  obtain ⟨vs, ts, us, ws, next, a, b, -, rfl, -, right⟩ := h
  obtain ⟨t, rest, rfl, -⟩ := right.element_head le_rfl
  simp

namespace Shown

theorem append (h : Shown c before ts ms) (later : Shown c (before ++ ts) us ns) : Shown c before (ts ++ us) (ms ++ ns) := by
  induction h with
  | nil => simpa using later
  | @token before t after ms _ ih =>
    rw [List.append_assoc]
    exact .token (ih (by simpa using later))
  | @product before t after ms operands _ ih =>
    rw [List.append_assoc]
    exact .product (operands.append us) (ih (by simpa using later))

/-- Between two operands a product sign may be put in. -/
theorem star (h : Shown c before ts ms) (filled : ts ≠ []) (operands : SideBySide c (before ++ ts) us)
    (later : Shown c (before ++ ts) us ns) : Shown c before (ts ++ us) (ms ++ .sign "*" :: ns) := by
  induction h with
  | nil => exact absurd rfl filled
  | @token before t after ms rest ih =>
    cases after with
    | nil =>
      cases rest
      rw [List.append_nil]
      exact .product operands later
    | cons t' after =>
      rw [List.append_assoc]
      exact .token (ih (by simp) (by simpa using operands) (by simpa using later))
  | @product before t after ms between _ ih =>
    rw [List.append_assoc]
    exact .product (between.append us) (ih between.ne_nil (by simpa using operands) (by simpa using later))

theorem cons (marked : t.mark? = some m) (later : Shown c (before ++ [t]) us ns) : Shown c before (t :: us) (m :: ns) := by
  have shown := token later
  rwa [marked] at shown

theorem skip (unmarked : t.mark? = none) (later : Shown c (before ++ [t]) us ns) : Shown c before (t :: us) ns := by
  have shown := token later
  rwa [unmarked] at shown

theorem singleton (marked : t.mark? = some m) : Shown c before [t] [m] := cons marked nil

theorem silent (unmarked : t.mark? = none) : Shown c before [t] [] := skip unmarked nil

/-- But for product signs, the marks are those of the tokens. -/
theorem filter_eq (h : Shown c before ts ms) :
    ms.filter (fun m => !m.isStar) = (ts.filterMap Token.mark?).filter fun m => !m.isStar := by
  induction h with
  | nil => rfl
  | @token _ t _ _ _ ih => cases marked : t.mark? <;> simp [marked, List.filter_cons, ih]
  | @product _ t _ _ _ _ ih =>
    have star : (Mark.sign "*").isStar = true := rfl
    cases marked : t.mark? <;> simp [marked, List.filter_cons, star, ih]

/-- No mark of a token is missing, product signs that are written included. -/
theorem sublist (h : Shown c before ts ms) : (ts.filterMap Token.mark?).Sublist ms := by
  induction h with
  | nil => exact .slnil
  | @token _ t _ _ _ ih =>
    rw [List.filterMap_cons]
    cases t.mark? with
    | none => exact ih
    | some m => exact ih.cons_cons m
  | @product _ t _ _ _ _ ih =>
    rw [List.filterMap_cons]
    cases t.mark? with
    | none => exact ih.cons _
    | some m => exact (ih.cons _).cons_cons m

end Shown

theorem mark_number (kind : t.kind = .number) : t.mark? = some (.number (Decimal.read? t.text)) := by
  simp only [Token.mark?, kind]

theorem mark_name (kind : t.kind = .name) : t.mark? = some (.name t.text) := by
  simp only [Token.mark?, kind]

theorem mark_operator {o : Operator} (kind : t.kind = .operator o) : t.mark? = some (.sign o.symbol) := by
  simp only [Token.mark?, kind]

theorem mark_bang (kind : t.kind = .bang) : t.mark? = some (.sign "!") := by
  simp only [Token.mark?, kind]

theorem mark_opening (kind : t.kind = .opening) : t.mark? = none := by
  simp only [Token.mark?, kind]

theorem mark_closing (kind : t.kind = .closing) : t.mark? = none := by
  simp only [Token.mark?, kind]

theorem mark_comma (kind : t.kind = .comma) : t.mark? = none := by
  simp only [Token.mark?, kind]

section Signs

variable {entry : Entry} {p : Operator}

/-- An operation with a sign shows that sign. -/
theorem mark_of_sign (regular : c.Regular) (known : c.operator? p.symbol = some entry) : entry.mark = .sign p.symbol :=
  Entry.mark_of_symbol (regular.of_sign known).2.2

theorem mark_of_bang (regular : c.Regular) (known : c.operator? "!" = some entry) : entry.mark = .sign "!" :=
  Entry.mark_of_symbol (regular.of_bang known).2.2

end Signs

/-- A group shows what is in it. -/
theorem Shown.group {o q : Token} (opening : o.kind = .opening) (closing : q.kind = .closing)
    (inside : Shown c (before ++ [o]) ts ms) : Shown c before (o :: (ts ++ [q])) ms := by
  have closed := inside.append (.silent (mark_closing closing))
  rw [List.append_nil] at closed
  exact .skip (mark_opening opening) closed

/-- A name that is called shows the name, and then what its arguments show. -/
theorem marks_call {entry : Entry} (known : c.lookup? t.text = some entry) (e : Expression) :
    ((reference entry).withRight e).marks = .name t.text :: e.marks := by
  rw [marks_withRight rfl, marks_reference, Catalog.mark_of_lookup? known, List.singleton_append]

/-- The tree of a phrase shows its tokens. -/
theorem Phrase.shown (regular : c.Regular) (h : Phrase c true next l ts e) (before : List Token) :
    Shown c before ts e.marks := by
  induction h generalizing before with
  | loosen _ _ ih => exact ih before
  | argument first comma _ ih_first ih_last =>
    rw [marks_snoc (first.denotes regular).2]
    exact (ih_first before).append (.skip (mark_comma comma) (ih_last _))
  | @binary _ o entry ts t us a b _ sign known _ ih_left ih_right =>
    rw [marks_of_reference, mark_of_sign regular known]
    exact (ih_left before).append (.cons (mark_operator sign) (ih_right _))
  | negation sign known _ ih =>
    rw [marks_of_reference, mark_of_sign (p := .minus) regular known]
    exact .cons (mark_operator sign) (ih _)
  | factorial _ sign known ih =>
    rw [marks_of_reference, mark_of_bang regular known]
    exact (ih before).append (.singleton (mark_bang sign))
  | @juxtaposition next star ts us a b left right known ih_left ih_right =>
    have sign : star.mark = .sign "*" := mark_of_sign (p := .star) regular known
    rcases marks_beside a b star with same | same
    · rw [same]
      exact (ih_left before).append (ih_right _)
    · rw [same, sign]
      have operands : SideBySide c (before ++ ts) us := ⟨before, ts, us, [], next, a, b, rfl, by simp, left, right⟩
      exact (ih_left before).star left.ne_nil operands (ih_right _)
  | number kind read =>
    rw [marks_literal, ← read]
    exact .singleton (mark_number kind)
  | constant kind known =>
    rw [marks_reference, Catalog.mark_of_lookup? known]
    exact .singleton (mark_name kind)
  | group opening _ closing ih => exact .group opening closing (ih _)
  | call name known opening _ closing ih =>
    rw [marks_call known]
    exact .cons (mark_name name) (.group opening closing (ih _))
  | emptyCall name known opening closing =>
    rw [marks_emptyCall, Catalog.mark_of_lookup? known]
    exact .cons (mark_name name) (.group opening closing .nil)
  | reuse _ _ _ opening _ _ closing ih_callee ih =>
    rw [marks_withRight rfl]
    exact (ih_callee before).append (.group opening closing (ih _))
  | emptyReuse _ _ _ opening closing ih =>
    have behind := (ih before).append (.group opening closing .nil)
    rwa [List.append_nil] at behind

/-- What is built over the standard operations and any constants shows every token once, in the order of the
text. Apart from product signs it shows nothing else, and a product sign that is not written stands between
two operands that are side by side. -/
theorem marks_of_expression (constants : List (String × Float)) {tokens : List Token} {root : Expression}
    (built : (Catalog.standard.withConstants constants).expression tokens = .ok root) :
    root.marks.filter (fun m => !m.isStar) = (tokens.filterMap Token.mark?).filter (fun m => !m.isStar) ∧
      (tokens.filterMap Token.mark?).Sublist root.marks ∧
      Shown (Catalog.standard.withConstants constants) [] tokens root.marks := by
  have regular := Catalog.regular_withConstants constants
  have shown := ((expression_eq_ok_iff regular).1 built).shown regular []
  exact ⟨shown.filter_eq, shown.sublist, shown⟩

/-- In `2 (3) 4` the group takes the free place beside the first number, and the last one is multiplied
by a sign of its own. -/
theorem marks_of_expression_product :
    let tokens : List Token :=
      [⟨.number, "2", 0⟩, ⟨.opening, "(", 2⟩, ⟨.number, "3", 3⟩, ⟨.closing, ")", 4⟩, ⟨.number, "4", 6⟩]
    ∃ root, (Catalog.standard.withConstants []).expression tokens = .ok root ∧
      root.marks = [.number (Decimal.read? "2"), .number (Decimal.read? "3"), .sign "*", .number (Decimal.read? "4")] ∧
      (tokens.filterMap Token.mark?).Sublist root.marks := by
  intro tokens
  obtain ⟨root, built, marks⟩ : ∃ root, (Catalog.standard.withConstants []).expression tokens = .ok root ∧
      root.marks = [.number (Decimal.read? "2"), .number (Decimal.read? "3"), .sign "*", .number (Decimal.read? "4")] :=
    ⟨_, rfl, rfl⟩
  exact ⟨root, built, marks, (marks_of_expression [] built).2.1⟩

end Reckoner.Grammar
