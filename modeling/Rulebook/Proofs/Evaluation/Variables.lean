import Rulebook.Condition.Eval
import Rulebook.Proofs.Subtrees

/-!
# What a condition reads of the facts

A condition looks up its variables and reads nothing else of the facts. The result is the failure
that names a variable if one without a value is reached. Otherwise no operation has seen more of the
facts than values of variables, so the result stays as it is when facts are added.
-/
namespace Rulebook

open Condition

/-- Every name with a value has the same value in the other facts. -/
def Facts.Within (facts facts' : Facts) : Prop :=
  ∀ name v, facts.get? name = some v → facts'.get? name = some v

namespace Condition

variable {α β : Type}

/-- The result is a value, or a failure for another reason than a variable without a value. -/
inductive Resolved : Except EvalError α → Prop
  | value (a : α) : Resolved (.ok a)
  | failure {e : EvalError} (h : ∀ name, e ≠ .unknownVariable name) : Resolved (.error e)

theorem Resolved.bind {result : Except EvalError α} {next : α → Except EvalError β}
    (h : Resolved result) (hnext : ∀ a, Resolved (next a)) : Resolved (result >>= next) := by
  cases h with
  | value a => exact hnext a
  | failure reason => exact .failure reason

theorem resolved_asBoolean (use : BooleanUse) (v : Value) : Resolved (asBoolean use v) := by
  unfold asBoolean
  split
  · exact .value _
  · exact .failure (by simp)

theorem resolved_fieldOf (target : Value) (name : String) : Resolved (fieldOf target name) := by
  unfold fieldOf
  split
  · split
    · exact .value _
    · exact .failure (by simp)
  · exact .failure (by simp)
  · exact .failure (by simp)

theorem resolved_indexInto (target position : Value) : Resolved (indexInto target position) := by
  unfold indexInto
  split
  · split
    · exact .failure (by simp)
    · split
      · exact .value _
      · exact .failure (by simp)
  · exact .value _
  · exact .failure (by simp)
  · exact .failure (by simp)

section Methods

variable (name : String) (target : Value) (args : List Value)

theorem resolved_noArguments (result : Value) : Resolved (noArguments name args result) := by
  unfold noArguments
  split
  · exact .value _
  · exact .failure (by simp)

theorem resolved_oneArgument {result : Value → Except EvalError Value}
    (h : ∀ arg, Resolved (result arg)) : Resolved (oneArgument name args result) := by
  unfold oneArgument
  split
  · exact h _
  · exact .failure (by simp)

theorem resolved_oneString (result : String → Bool) :
    Resolved (oneString name target args result) := by
  refine resolved_oneArgument name args fun arg => ?_
  split
  · exact .value _
  · exact .failure (by simp)

theorem resolved_callMethod : Resolved (callMethod target name args) := by
  unfold callMethod
  split
  · exact .failure (by simp)
  split
  case h_2 => exact resolved_oneArgument _ _ fun _ => .value _
  case h_1 | h_3 | h_4 | h_5 => exact resolved_oneString ..
  case h_14 => exact .failure (by simp)
  all_goals exact resolved_noArguments ..

end Methods

theorem resolved_fitting (operation : Operation) (n : Int) : Resolved (fitting operation n) := by
  unfold fitting
  split
  · exact .value _
  · exact .failure (by simp)

theorem resolved_unary (op : UnaryOp) (v : Value) : Resolved (op.apply v) := by
  unfold UnaryOp.apply
  split
  · exact .value _
  · exact resolved_fitting ..
  · exact .value _
  · exact .failure (by simp)

theorem resolved_onInts (op : ArithOp) (a b : Int64) : Resolved (op.onInts a b) := by
  cases op with
  | add | sub | mul => exact resolved_fitting ..
  | div =>
    rw [ArithOp.onInts]
    split
    · exact .failure (by simp)
    · exact resolved_fitting ..
  | rem =>
    rw [ArithOp.onInts]
    split
    · exact .failure (by simp)
    · exact (resolved_fitting ..).bind fun _ => resolved_fitting ..

theorem resolved_onFloats (op : ArithOp) (x y : Float) : Resolved (op.onFloats x y) := by
  cases op with
  | add | sub | mul => exact .value _
  | div | rem =>
    rw [ArithOp.onFloats]
    split
    · exact .failure (by simp)
    · exact .value _

theorem resolved_arith (op : ArithOp) (left right : Value) : Resolved (op.apply left right) := by
  unfold ArithOp.apply
  extract_lets onNumbers
  have numbers : Resolved onNumbers := by
    unfold onNumbers
    split
    · exact resolved_onFloats ..
    · exact .failure (by simp)
  split
  · exact resolved_onInts ..
  · split
    · exact .value _
    · exact numbers
  · split
    · exact .value _
    · exact numbers
  · exact numbers

theorem resolved_ordering (op : OrderOp) (left right : Value) :
    Resolved (op.apply left right) := by
  unfold OrderOp.apply
  split
  · exact .value _
  · exact .failure (by simp)

theorem resolved_binary (op : BinaryOp) (left right : Value) : Resolved (op.apply left right) := by
  cases op with
  | eq | ne => exact .value _
  | gt | ge | lt | le => exact resolved_ordering ..
  | add | sub | mul | div | rem => exact resolved_arith ..

variable {Named : String → Prop} {facts facts' : Facts}

/-- How a result over some facts leads to the result over others. It is the same, or it was the
failure for one of the names, which had no value; if that name has none in the others either, it is
the same failure again. -/
inductive Settles (Named : String → Prop) (facts facts' : Facts) :
    Except EvalError α → Except EvalError α → Prop
  | same {result : Except EvalError α} (resolved : Resolved result) :
      Settles Named facts facts' result result
  | lacking {name : String} {result' : Except EvalError α} (named : Named name)
      (unbound : facts.get? name = none)
      (still : facts'.get? name = none → result' = .error (.unknownVariable name)) :
      Settles Named facts facts' (.error (.unknownVariable name)) result'

theorem Settles.value (a : α) : Settles Named facts facts' (.ok a) (.ok a) := .same (.value a)

/-- The first failure decides, so only what a value leads to is left to compare. -/
theorem Settles.bind {result result' : Except EvalError α} {next next' : α → Except EvalError β}
    (h : Settles Named facts facts' result result')
    (hnext : ∀ a, Settles Named facts facts' (next a) (next' a)) :
    Settles Named facts facts' (result >>= next) (result' >>= next') := by
  cases h with
  | same resolved =>
    cases resolved with
    | value a => exact hnext a
    | failure reason => exact .same (.failure reason)
  | lacking named unbound still =>
    refine .lacking named unbound fun free => ?_
    rw [still free]
    rfl

namespace Expr

/-- The name is a variable of the tree. -/
def Mentions (e : Expr) (name : String) : Prop := e.Somewhere (· = .var name)

theorem settles_evalAll {es : List Expr}
    (h : ∀ e ∈ es, Settles Named facts facts' (e.eval facts) (e.eval facts')) :
    Settles Named facts facts' (evalAll facts es) (evalAll facts' es) := by
  induction es with
  | nil => exact .value []
  | cons e es ih =>
    have rest := ih fun e' he' => h e' (List.mem_cons_of_mem _ he')
    exact (h e List.mem_cons_self).bind fun v => rest.bind fun vs => .value (v :: vs)

/-- The names are fixed for the whole tree, so that they serve all its subtrees. -/
theorem settles_eval (e : Expr)
    (kept : ∀ name v, Named name → facts.get? name = some v → facts'.get? name = some v)
    (hnamed : ∀ name, e.Mentions name → Named name) :
    Settles Named facts facts' (e.eval facts) (e.eval facts') := by
  induction e using belowRec with
  | step e ih =>
  have below : ∀ c ∈ e.children, Settles Named facts facts' (c.eval facts) (c.eval facts') :=
    fun c hc => ih c hc fun name h => hnamed name (.deeper hc h)
  clear ih
  cases e with
  | literal v => exact .value v
  | var name =>
    have named : Named name := hnamed name (.here rfl)
    rw [eval, eval]
    cases hv : facts.get? name with
    | some v =>
      rw [kept name v named hv]
      exact .value v
    | none => exact .lacking named hv fun free => by rw [free]
  | list items => exact (settles_evalAll below).bind fun vs => .value _
  | field target name =>
    exact (below target (by simp)).bind fun t => .same (resolved_fieldOf t name)
  | index target position =>
    have hposition := below position (by simp)
    exact (below target (by simp)).bind fun t => hposition.bind fun p =>
      .same (resolved_indexInto t p)
  | call target method args =>
    have hargs := settles_evalAll fun e (he : e ∈ args) => below e (List.mem_cons_of_mem _ he)
    exact (below target (by simp)).bind fun t => hargs.bind fun vs =>
      .same (resolved_callMethod method t vs)
  | unary op operand => exact (below operand (by simp)).bind fun v => .same (resolved_unary op v)
  | binary op left right =>
    have hright := below right (by simp)
    exact (below left (by simp)).bind fun l => hright.bind fun r => .same (resolved_binary op l r)
  | and left right =>
    have hright := below right (by simp)
    refine (below left (by simp)).bind fun l => ?_
    refine Settles.bind (.same (resolved_asBoolean .and l)) fun holds => ?_
    split
    · exact hright.bind fun r => .bind (.same (resolved_asBoolean .and r)) fun b => .value _
    · exact .value _
  | or left right =>
    have hright := below right (by simp)
    refine (below left (by simp)).bind fun l => ?_
    refine Settles.bind (.same (resolved_asBoolean .or l)) fun holds => ?_
    split
    · exact .value _
    · exact hright.bind fun r => .bind (.same (resolved_asBoolean .or r)) fun b => .value _
  | ternary condition thenBranch elseBranch =>
    refine (below condition (by simp)).bind fun c => ?_
    refine Settles.bind (.same (resolved_asBoolean .choice c)) fun holds => ?_
    split
    · exact below thenBranch (by simp)
    · exact below elseBranch (by simp)

/-- Added facts change the result only where it was the failure for a variable without a value. Such
a failure names a variable of the tree. Facts that agree on the variables of the tree give the same
result. -/
theorem eval_settled (e : Expr) (facts facts' : Facts) :
    (facts.Within facts' → e.eval facts' = e.eval facts ∨
      ∃ name, e.eval facts = .error (.unknownVariable name)) ∧
    (∀ name, e.eval facts = .error (.unknownVariable name) →
      e.Mentions name ∧ facts.get? name = none) ∧
    ((∀ name, e.Mentions name → facts.get? name = facts'.get? name) →
      e.eval facts = e.eval facts') := by
  refine ⟨fun within => ?_, fun name hname => ?_, fun agree => ?_⟩
  · have h := e.settles_eval (fun name v _ => within name v) fun _ mentioned => mentioned
    generalize e.eval facts = result, e.eval facts' = result' at h ⊢
    cases h with
    | same => exact .inl rfl
    | lacking => exact .inr ⟨_, rfl⟩
  · have h : Settles e.Mentions facts facts (e.eval facts) (e.eval facts) :=
      e.settles_eval (fun _ _ _ bound => bound) fun _ mentioned => mentioned
    rw [hname] at h
    cases h with
    | same resolved =>
      cases resolved with
      | failure reason => exact absurd rfl (reason name)
    | lacking mentioned unbound => exact ⟨mentioned, unbound⟩
  · have h := e.settles_eval (fun name v mentioned => (agree name mentioned).symm.trans)
      fun _ mentioned => mentioned
    generalize e.eval facts = result, e.eval facts' = result' at h ⊢
    cases h with
    | same => rfl
    | lacking mentioned unbound still => exact (still ((agree _ mentioned).symm.trans unbound)).symm

/-- A name that is not reached may have any value or none, and one that is reached is reported. -/
theorem eval_settled_unreached :
    let facts := Facts.ofList [("a", .bool true)]
    let facts' := facts.insert "b" .null
    let either : Expr := .or (.var "a") (.var "b")
    let both : Expr := .and (.var "a") (.var "b")
    facts.Within facts' ∧ either.eval facts' = .ok (.bool true) ∧
      both.eval facts = .error (.unknownVariable "b") ∧ both.Mentions "b" ∧
      facts.get? "b" = none ∧ both.eval facts' = .error (.notBoolean .and .null) := by
  intro facts facts' either both
  have within : facts.Within facts' := by
    intro name v h
    have hentry : (if name = "a" then some (Value.bool true) else none) = some v := h
    split at hentry
    · next hname =>
      subst hname
      exact hentry
    · cases hentry
  have settled : either.eval facts' = .ok (.bool true) := by
    rcases (eval_settled either facts facts').1 within with same | ⟨name, lacking⟩
    · exact same
    · cases lacking
  have lacking : both.eval facts = .error (.unknownVariable "b") := rfl
  obtain ⟨mentioned, unbound⟩ := (eval_settled both facts facts').2.1 "b" lacking
  exact ⟨within, settled, lacking, mentioned, unbound, rfl⟩

end Expr

end Condition

end Rulebook
