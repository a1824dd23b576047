import Rulebook.Condition.Expr

/-!
# Subtrees

What holds at every node of a tree, and what holds at some node of it. A property that a tree has
once the trees directly below have it holds of every tree.
-/
namespace Rulebook.Condition.Expr

/-- The trees directly below. -/
@[simp] def children : Expr → List Expr
  | literal _ | var _ => []
  | list items => items
  | field target _ => [target]
  | index target position => [target, position]
  | call target _ args => target :: args
  | unary _ operand => [operand]
  | binary _ left right | and left right | or left right => [left, right]
  | ternary condition thenBranch elseBranch => [condition, thenBranch, elseBranch]

theorem sizeOf_lt_of_mem_children {e c : Expr} (h : c ∈ e.children) : sizeOf c < sizeOf e := by
  cases e with
  | literal | var => cases h
  | list items =>
    have hitem : c ∈ items := h
    have := List.sizeOf_lt_of_mem hitem
    simp only [list.sizeOf_spec]
    omega
  | call target method args =>
    rcases List.mem_cons.mp h with rfl | h
    · simp only [call.sizeOf_spec]
      omega
    · have := List.sizeOf_lt_of_mem h
      simp only [call.sizeOf_spec]
      omega
  | field | index | unary | binary | and | or | ternary =>
    simp only [children, List.mem_cons, List.not_mem_nil, or_false] at h
    rcases h with rfl | rfl | rfl <;> simp <;> omega

/-- Induction from the trees directly below to the tree. -/
@[elab_as_elim]
theorem belowRec {P : Expr → Prop} (step : ∀ e, (∀ c ∈ e.children, P c) → P e) (e : Expr) : P e :=
  step e fun c _ => belowRec step c
termination_by sizeOf e
decreasing_by exact sizeOf_lt_of_mem_children ‹_›

/-- A property of every node of a tree. -/
inductive Everywhere (P : Expr → Prop) : Expr → Prop
  | node {e : Expr} (here : P e) (below : ∀ c ∈ e.children, Everywhere P c) : Everywhere P e

theorem Everywhere.mp {P Q R : Expr → Prop} (hR : ∀ e, P e → Q e → R e) {e : Expr}
    (hP : Everywhere P e) (hQ : Everywhere Q e) : Everywhere R e := by
  induction hP with
  | node here below ih =>
    cases hQ with
    | node here' below' => exact .node (hR _ here here') fun c hc => ih c hc (below' c hc)

theorem Everywhere.mono {P Q : Expr → Prop} (h : ∀ e, P e → Q e) {e : Expr}
    (hP : Everywhere P e) : Everywhere Q e := hP.mp (fun e hp _ => h e hp) hP

/-- A leaf has nothing below. -/
theorem Everywhere.leaf {P : Expr → Prop} {e : Expr} (here : P e) (h : e.children = []) :
    Everywhere P e := by
  refine .node here ?_
  rw [h]
  exact List.forall_mem_nil _

theorem Everywhere.unary {P : Expr → Prop} {op : UnaryOp} {operand : Expr}
    (here : P (.unary op operand)) (below : Everywhere P operand) :
    Everywhere P (.unary op operand) :=
  .node here (List.forall_mem_singleton.mpr below)

theorem Everywhere.binary {P : Expr → Prop} {op : BinaryOp} {left right : Expr}
    (here : P (.binary op left right)) (hleft : Everywhere P left) (hright : Everywhere P right) :
    Everywhere P (.binary op left right) :=
  .node here (List.forall_mem_cons.mpr ⟨hleft, List.forall_mem_singleton.mpr hright⟩)

/-- A property of some node of a tree. -/
inductive Somewhere (P : Expr → Prop) : Expr → Prop
  | here {e : Expr} (h : P e) : Somewhere P e
  | deeper {e c : Expr} (mem : c ∈ e.children) (h : Somewhere P c) : Somewhere P e

theorem Somewhere.mono {P Q : Expr → Prop} (h : ∀ e, P e → Q e) {e : Expr}
    (hP : Somewhere P e) : Somewhere Q e := by
  induction hP with
  | here hp => exact .here (h _ hp)
  | deeper mem _ ih => exact .deeper mem ih

theorem Somewhere.exists {P : Expr → Prop} {e : Expr} (h : Somewhere P e) : ∃ s, P s := by
  induction h with
  | here hp => exact ⟨_, hp⟩
  | deeper _ _ ih => exact ih

/-- What holds everywhere holds where something else does. -/
theorem Everywhere.meets {P Q : Expr → Prop} {e : Expr} (hP : Everywhere P e)
    (hQ : Somewhere Q e) : ∃ s, P s ∧ Q s := by
  induction hQ with
  | here hq =>
    cases hP with
    | node here _ => exact ⟨_, here, hq⟩
  | deeper mem _ ih =>
    cases hP with
    | node _ below => exact ih (below _ mem)

end Rulebook.Condition.Expr
