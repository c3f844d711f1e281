import Reckoner.Proofs.Calculator.Parse
import Reckoner.Proofs.Expression.Depth
import Reckoner.Proofs.Stack.Marks

/-!
# How much a token can add

A `Gauge` measures trees in such a way that joining two of them costs nothing: only a new node may
raise the measure, by a fixed rate. What the pieces on a stack measure together then grows by at
most that rate for each token, whatever the catalog holds. A node that stands for no token of its
own is paid for by another one: a product by the operand that it is put in for, an
argument list by the parenthesis that closes it.
-/

namespace Reckoner

open Expression

/-- A measure of trees with at most `rate` for each node, and without loss where two trees are joined. -/
structure Gauge (rate : Nat) (measure : Expression → Nat) : Prop where
  leaf (operation : Operation Expression) (bare : operation.items = []) : measure ⟨operation, none, none⟩ ≤ rate
  behind (entry : Entry) (a : Expression) : measure ⟨.reference entry, some a, none⟩ ≤ measure a + rate
  product (star : Entry) (a b : Expression) : measure ⟨.reference star, some a, some b⟩ ≤ measure a + measure b
  withRight (a b : Expression) : measure (a.withRight b) ≤ measure a + measure b
  arguments (items : List Expression) : measure (.arguments items) ≤ (items.map measure).sum + rate

/-- The depth of a tree grows by one for a node. Where two trees are joined, the depth of each pays for
the level that the other one goes down. -/
theorem gauge_depth : Gauge 1 depth where
  leaf operation bare := by
    rw [depth_eq]
    simp [children, bare, depthList]
  behind entry a := by
    rw [depth_eq]
    simp only [children, Operation.items, Option.toList_some, Option.toList_none, List.append_nil, depthList]
    omega
  product star a b := by
    have ha := depth_pos a
    have hb := depth_pos b
    rw [depth_eq]
    simp only [children, Operation.items, Option.toList_some, List.append_nil, List.cons_append, List.nil_append, depthList]
    omega
  withRight a b := by
    have ha := depth_eq a
    have hb := depth_pos b
    rw [depth_eq (a.withRight b)]
    simp only [children, withRight, depthList_append, depthList_toList, depthOption] at ha ⊢
    omega
  arguments items := by
    have below : depthList items ≤ (items.map depth).sum := by
      induction items with
      | nil => simp [depthList]
      | cons item rest ih =>
        simp only [depthList, List.map_cons, List.sum_cons]
        omega
    rw [depth_eq]
    simp only [children, Expression.arguments, Operation.items, Option.toList_none, List.nil_append]
    omega

/-- The number of nodes, and one more: that one pays for the product that the tree may become a factor of. -/
theorem gauge_size : Gauge 2 (fun e => e.size + 1) where
  leaf operation bare := by
    rw [size_eq]
    simp [children, bare, sizeList]
  behind entry a := by
    rw [size_eq]
    simp only [children, Operation.items, Option.toList_some, Option.toList_none, List.append_nil, sizeList]
    omega
  product star a b := by
    rw [size_eq]
    simp only [children, Operation.items, Option.toList_some, List.append_nil, List.cons_append, List.nil_append, sizeList]
    omega
  withRight a b := by
    have ha := size_eq a
    rw [size_eq (a.withRight b)]
    simp only [children, withRight, sizeList_append, sizeList_toList, sizeOption] at ha ⊢
    omega
  arguments items := by
    have below : sizeList items ≤ (items.map fun item => item.size + 1).sum := by
      induction items with
      | nil => simp [sizeList]
      | cons item rest ih =>
        simp only [sizeList, List.map_cons, List.sum_cons]
        omega
    rw [size_eq]
    simp only [children, Expression.arguments, Operation.items, Option.toList_none, List.nil_append]
    omega

namespace Assembly

/-- What the pieces of a stack measure together, a boundary like the leaf that it is in a tree. -/
def total (measure : Expression → Nat) (S : List Piece) : Nat :=
  (S.map fun piece => measure piece.asOperand).sum

theorem total_nil (measure : Expression → Nat) : total measure [] = 0 := rfl

theorem total_cons (measure : Expression → Nat) (piece : Piece) (S : List Piece) :
    total measure (piece :: S) = measure piece.asOperand + total measure S := rfl

theorem total_operand (measure : Expression → Nat) (e : Expression) (S : List Piece) :
    total measure (.operand e :: S) = measure e + total measure S := rfl

end Assembly

namespace Gauge

open Assembly

variable {rate : Nat} {measure : Expression → Nat} {c : Catalog} {next : Option TokenKind} {o : Operator} {piece : Piece}
  {S S' : List Piece} {e e' joined left right : Expression} {later items : List Expression} {content : Option Expression}
  {a b : Assembly} {t : Token} {ts : List Token} {entry : Entry} {opening : Opening}

theorem juxtapose (gauge : Gauge rate measure) (done : Assembly.juxtapose c left right = .ok joined) :
    measure joined ≤ measure left + measure right := by
  unfold Assembly.juxtapose Assembly.product at done
  split at done
  · cases known : c.operator "*" with
    | error cause =>
      rw [known] at done
      cases done
    | ok star =>
      rw [known] at done
      cases done
      exact gauge.product star left right
  · cases done
    exact gauge.withRight left right

theorem settle (gauge : Gauge rate measure) (settled : Assembly.settle o piece S = .ok S') :
    total measure S' ≤ measure piece.asOperand + total measure S := by
  fun_induction Assembly.settle o piece S with
  | case1 piece top below awaits binds ih =>
    have taken := gauge.withRight top piece.asOperand
    have rest : total measure S' ≤ measure (top.withRight piece.asOperand) + total measure below := ih settled
    rw [total_operand]
    omega
  | case2 piece top below awaits binds =>
    cases settled
    simp only [total_cons]
    omega
  | case3 => cases settled
  | case4 piece top below waits =>
    cases settled
    simp only [total_cons]
    omega
  | case5 piece S other =>
    cases settled
    simp only [total_cons]
    omega

theorem settleBefore (gauge : Gauge rate measure) (settled : Assembly.settleBefore next piece S = .ok S') :
    total measure S' ≤ measure piece.asOperand + total measure S := by
  unfold Assembly.settleBefore at settled
  split at settled
  · exact gauge.settle settled
  · cases settled
    rw [total_cons]

/-- An operand that is put down adds no more than its own measure. -/
theorem place (gauge : Gauge rate measure) (placed : Assembly.place c next piece S = .ok S') :
    total measure S' ≤ measure piece.asOperand + total measure S := by
  unfold Assembly.place at placed
  split at placed
  · next top below =>
    split at placed
    · split at placed
      · next joined done =>
        have together := gauge.juxtapose done
        have settled : total measure S' ≤ measure joined + total measure below := gauge.settleBefore placed
        rw [total_operand]
        omega
      · cases placed
    · exact gauge.settleBefore placed
  · exact gauge.settleBefore placed

theorem chain (gauge : Gauge rate measure) (linked : Assembly.chain e S = .ok (e', S')) :
    measure e' + total measure S' ≤ measure e + total measure S := by
  fun_induction Assembly.chain e S with
  | case1 e previous below awaits ih =>
    have taken := gauge.withRight previous e
    have rest := ih linked
    rw [total_operand]
    omega
  | case2 => cases linked
  | case3 e S other =>
    cases linked
    omega

theorem link (gauge : Gauge rate measure) (linked : Assembly.link S = .ok (e, S')) :
    measure e + total measure S' ≤ total measure S := by
  unfold Assembly.link at linked
  split at linked
  · split at linked
    · exact gauge.chain linked
    · cases linked
  · cases linked

theorem collect (collected : Assembly.collect later S = .ok (items, S')) :
    (items.map measure).sum + total measure S' ≤ (later.map measure).sum + total measure S := by
  fun_induction Assembly.collect later S with
  | case1 later argument position below ih =>
    have rest := ih collected
    simp only [List.map_cons, List.sum_cons] at rest
    rw [total_operand, total_cons]
    omega
  | case2 later argument opening below =>
    cases collected
    rw [total_operand, total_cons, List.map_cons, List.sum_cons]
    omega
  | case3 => cases collected

/-- A scope that is closed adds at most one node, the list of its arguments. -/
theorem closeScope (gauge : Gauge rate measure) (closed : Assembly.closeScope S = .ok (e, S')) :
    measure e + total measure S' ≤ total measure S + rate := by
  rcases closeScope_cases closed with ⟨opening, linked⟩ | ⟨last, position, below, items, linked, collected, rfl⟩
  · have joined := gauge.link linked
    simp only [total_cons] at joined
    omega
  · have joined := gauge.link linked
    have listed : (items.map measure).sum + total measure S' ≤ ([last].map measure).sum + total measure below :=
      collect collected
    have list := gauge.arguments items
    simp only [total_cons, List.map_cons, List.map_nil, List.sum_cons, List.sum_nil] at joined listed
    omega

/-- A call is its callee and its content; without a content it has an empty list at most. -/
theorem callOf (gauge : Gauge rate measure) {callee call : Piece} (called : Assembly.callOf content callee = some call) :
    measure call.asOperand ≤ measure callee.asOperand + (content.map measure).getD rate := by
  cases callee with
  | operand callee =>
    obtain ⟨whole, applied, rfl⟩ := Option.map_eq_some_iff.1 called
    cases content with
    | some content =>
      cases applied
      exact gauge.withRight callee content
    | none =>
      obtain ⟨entry, -, rfl⟩ := Option.map_eq_some_iff.1 applied
      have list := gauge.arguments []
      have filled := gauge.withRight callee (.arguments [])
      simp only [List.map_nil, List.sum_nil] at list
      show measure (if entry.kind == .nullary then callee else callee.withRight (.arguments [])) ≤ measure callee + rate
      split
      · omega
      · omega
  | opening o =>
    obtain ⟨content', -, rfl⟩ := Option.map_eq_some_iff.1 called
    exact Nat.le_add_right _ _
  | comma position =>
    obtain ⟨content', -, rfl⟩ := Option.map_eq_some_iff.1 called
    exact Nat.le_add_right _ _

theorem placeGroup (gauge : Gauge rate measure) (placed : Assembly.placeGroup c next opening content S = .ok S') :
    total measure S' ≤ total measure S + (content.map measure).getD rate := by
  unfold Assembly.placeGroup at placed
  split at placed
  · split at placed
    · cases placed
    · next callee below =>
      split at placed
      · next call called =>
        have whole := gauge.callOf called
        have put := gauge.place placed
        rw [total_cons]
        omega
      · cases placed
  · split at placed
    · next content =>
      have put : total measure S' ≤ measure content + total measure S := gauge.place placed
      rw [Option.map_some, Option.getD_some]
      omega
    · cases placed

theorem operatorNode (gauge : Gauge rate measure) (made : Assembly.operatorNode entry t S = .ok (e, S')) :
    measure e + total measure S' ≤ total measure S + rate := by
  unfold Assembly.operatorNode at made
  split at made
  · cases made
    have alone : measure (.reference entry) ≤ rate := gauge.leaf (.reference entry) rfl
    omega
  · split at made
    · next top below _ =>
      split at made
      · cases made
        have taken := gauge.behind entry top
        rw [total_operand]
        omega
      · cases made
    · cases made

/-- A token adds at most the rate of one node. -/
theorem feed (gauge : Gauge rate measure) (fed : a.feed c t next = .ok b) :
    total measure b.stack ≤ total measure a.stack + rate := by
  have name (entry : Entry) : measure (.reference entry) ≤ rate := gauge.leaf (.reference entry) rfl
  cases fed_of_feed fed with
  | @number value stack _ _ placed =>
    have alone : measure (.literal value) ≤ rate := gauge.leaf (.literal value) rfl
    have put : total measure stack ≤ measure (.literal value) + total measure a.stack := gauge.place placed
    show total measure stack ≤ _
    omega
  | @callee entry =>
    have alone := name entry
    show total measure (.operand (.reference entry) :: a.stack) ≤ _
    rw [total_operand]
    omega
  | @constant entry stack _ _ _ placed =>
    have alone := name entry
    have put : total measure stack ≤ measure (.reference entry) + total measure a.stack := gauge.place placed
    show total measure stack ≤ _
    omega
  | @operator o entry node below _ _ made =>
    have taken := gauge.operatorNode made
    show total measure (.operand node :: below) ≤ _
    rw [total_operand]
    omega
  | @bang entry node below stack _ _ made placed =>
    have taken := gauge.operatorNode made
    have put : total measure stack ≤ measure node + total measure below := gauge.place placed
    show total measure stack ≤ _
    omega
  | @opening o =>
    have alone : measure (Piece.opening o).asOperand ≤ rate := gauge.leaf (.boundary "(" o.position) rfl
    show total measure (.opening o :: a.stack) ≤ _
    rw [total_cons]
    omega
  | @comma argument below _ _ linked =>
    have joined := gauge.link linked
    have alone : measure (Piece.comma t.position).asOperand ≤ rate := gauge.leaf (.boundary "," t.position) rfl
    show total measure (.comma t.position :: .operand argument :: below) ≤ _
    rw [total_cons, total_operand]
    omega
  | @emptyGroup o below groups stack _ _ top placed =>
    have put : total measure stack ≤ total measure below + rate := gauge.placeGroup placed
    show total measure stack ≤ _
    rw [top, total_cons]
    omega
  | @group o content below groups stack _ _ closed placed =>
    have scope := gauge.closeScope closed
    have put : total measure stack ≤ total measure below + measure content := gauge.placeGroup placed
    show total measure stack ≤ _
    omega

theorem feedAll (gauge : Gauge rate measure) (fed : a.feedAll c next ts = .ok b) :
    total measure b.stack ≤ total measure a.stack + rate * ts.length := by
  induction ts generalizing a with
  | nil =>
    cases fed
    exact Nat.le_add_right _ _
  | cons t rest ih =>
    rw [Grammar.feedAll_cons] at fed
    obtain ⟨a', first, later⟩ := bind_eq_ok.1 fed
    have step := gauge.feed first
    have run := ih later
    rw [List.length_cons, Nat.mul_succ]
    omega

/-- The tree that is built measures no more than the pieces that were there and the tokens that have been read. -/
theorem build {root : Expression} (gauge : Gauge rate measure) (built : a.build c ts = .ok (root, b)) :
    measure root ≤ total measure a.stack + rate * ts.length := by
  obtain ⟨a', fed, finished⟩ := bind_eq_ok.1 built
  have run := gauge.feedAll fed
  unfold finish at finished
  split at finished
  · cases finished
  · split at finished
    · next linked =>
      cases finished
      have joined := gauge.link linked
      rw [total_nil] at joined
      omega
    · cases finished
    · cases finished

end Gauge

end Reckoner
