import Mathlib.Algebra.Group.Int.Defs
import Rulebook.Condition.Eval
import Rulebook.Condition.Grammar
import Rulebook.Proofs.Evaluation.Connectives
import Rulebook.Proofs.Subtrees

/-!
# Exact integers

Conditions compute with integers of 64 bits, but never with anything less than the exact value. A
tree over integers has a value over unbounded integers, defined without any range. If it evaluates
at all it evaluates to that value; otherwise some operation in it has a divisor of zero or leaves
the range. One operation fails although its result is in range: the remainder of the least integer
by minus one, since the quotient that goes with it is not in range.
-/
namespace Rulebook.Condition

/-- The integers that are values. -/
def InRange (n : Int) : Prop := Int64.minValue.toInt ≤ n ∧ n ≤ Int64.maxValue.toInt

instance : DecidablePred InRange := fun _ => inferInstanceAs (Decidable (_ ∧ _))

theorem inRange_toInt (n : Int64) : InRange n.toInt := ⟨n.minValue_le_toInt, n.toInt_le⟩

theorem inRange_iff {n : Int} : InRange n ↔ -2 ^ 63 ≤ n ∧ n < 2 ^ 63 := by
  rw [InRange, Int64.toInt_minValue, Int64.toInt_maxValue]
  omega

theorem inRange_iff_exists {n : Int} : InRange n ↔ ∃ k : Int64, k.toInt = n := by
  constructor
  · intro h
    obtain ⟨hlo, hhi⟩ := inRange_iff.mp h
    exact ⟨Int64.ofInt n, Int64.toInt_ofInt_of_le hlo hhi⟩
  · rintro ⟨k, rfl⟩
    exact inRange_toInt k

theorem fitting_eq (operation : Operation) (n : Int) :
    fitting operation n =
      if InRange n then .ok (.int (Int64.ofInt n)) else .error (.overflow operation) := rfl

theorem fitting_eq_ok {operation : Operation} {n : Int} {v : Value} :
    fitting operation n = .ok v ↔ ∃ k : Int64, k.toInt = n ∧ v = .int k := by
  rw [fitting_eq]
  constructor
  · intro h
    split at h
    · next range =>
      obtain ⟨k, rfl⟩ := inRange_iff_exists.mp range
      rw [Int64.ofInt_toInt] at h
      exact ⟨k, rfl, (Except.ok.inj h).symm⟩
    · cases h
  · rintro ⟨k, rfl, rfl⟩
    rw [if_pos (inRange_toInt k), Int64.ofInt_toInt]

theorem fitting_eq_error {operation : Operation} {n : Int} {err : EvalError} :
    fitting operation n = .error err ↔ ¬ InRange n ∧ err = .overflow operation := by
  rw [fitting_eq]
  split
  · next range => simp [range]
  · next range => simp [range, eq_comm]

/-- Only the least integer by minus one has a quotient that is out of range. -/
theorem inRange_tdiv_iff {a b : Int} (ha : InRange a) (hb : b ≠ 0) :
    InRange (a.tdiv b) ↔ ¬ (a = Int64.minValue.toInt ∧ b = -1) := by
  have size := Int.natAbs_tdiv a b
  rw [inRange_iff] at ha ⊢
  rw [Int64.toInt_minValue]
  by_cases hunit : b.natAbs = 1
  · rcases (show b = 1 ∨ b = -1 by omega) with rfl | rfl
    · rw [Int.tdiv_one]
      omega
    · rw [Int.tdiv_neg, Int.tdiv_one]
      omega
  · have half : a.natAbs / b.natAbs ≤ a.natAbs / 2 := Nat.div_le_div_left (by omega) (by decide)
    rw [show a.natAbs.div b.natAbs = a.natAbs / b.natAbs from rfl] at size
    omega

/-- The operator of arithmetic that an operator is. -/
def BinaryOp.arith? : BinaryOp → Option ArithOp
  | .add => some .add
  | .sub => some .sub
  | .mul => some .mul
  | .div => some .div
  | .rem => some .rem
  | _ => none

@[simp] theorem arith?_toBinary (op : ArithOp) : op.toBinary.arith? = some op := by
  cases op <;> rfl

namespace ArithOp

/-- The result over unbounded integers. A quotient is truncated toward zero, and a remainder has the
sign of the dividend. -/
def exactValue? (op : ArithOp) (a b : Int) : Option Int :=
  match op with
  | .add => some (a + b)
  | .sub => some (a - b)
  | .mul => some (a * b)
  | .div => if b = 0 then none else some (a.tdiv b)
  | .rem => if b = 0 then none else some (a.tmod b)

/-- The remainder whose quotient is out of range. -/
def LeastByMinusOne (op : ArithOp) (a b : Int) : Prop :=
  op = .rem ∧ a = Int64.minValue.toInt ∧ b = -1

instance (op : ArithOp) (a b : Int) : Decidable (op.LeastByMinusOne a b) :=
  inferInstanceAs (Decidable (_ ∧ _ ∧ _))

theorem exactValue?_eq_none {op : ArithOp} {a b : Int} :
    op.exactValue? a b = none ↔ (op = .div ∨ op = .rem) ∧ b = 0 := by
  cases op <;> simp [exactValue?]

theorem onInts_eq (op : ArithOp) (a b : Int64) :
    op.onInts a b =
      match op.exactValue? a.toInt b.toInt with
      | none => .error .divisionByZero
      | some n =>
        if op.LeastByMinusOne a.toInt b.toInt then .error (.overflow (.binary op.toBinary))
        else fitting (.binary op.toBinary) n := by
  have hzero : b = 0 ↔ b.toInt = 0 := by rw [← Int64.toInt_inj, Int64.toInt_zero]
  cases op with
  | add | sub | mul => simp [onInts, exactValue?, LeastByMinusOne]
  | div =>
    simp only [onInts, exactValue?, LeastByMinusOne, hzero]
    split <;> simp
  | rem =>
    simp only [onInts, exactValue?, LeastByMinusOne, hzero]
    split
    · rfl
    · next hb =>
      -- a remainder is refused with its quotient, and only this pair has one that is out of range
      have quotient := inRange_tdiv_iff (inRange_toInt a) hb
      simp only [true_and]
      by_cases least : a.toInt = Int64.minValue.toInt ∧ b.toInt = -1
      · rw [if_pos least, fitting_eq _ (a.toInt.tdiv b.toInt),
          if_neg fun range => quotient.mp range least]
        rfl
      · rw [if_neg least, fitting_eq _ (a.toInt.tdiv b.toInt), if_pos (quotient.mpr least)]
        rfl

theorem onInts_eq_ok {op : ArithOp} {a b : Int64} {v : Value} :
    op.onInts a b = .ok v ↔ ¬ op.LeastByMinusOne a.toInt b.toInt ∧
      ∃ n : Int64, op.exactValue? a.toInt b.toInt = some n.toInt ∧ v = .int n := by
  rw [onInts_eq]
  cases op.exactValue? a.toInt b.toInt with
  | none => simp
  | some n =>
    by_cases least : op.LeastByMinusOne a.toInt b.toInt
    · simp [least]
    · simp [least, fitting_eq_ok, @eq_comm _ n]

theorem onInts_eq_error {op : ArithOp} {a b : Int64} {err : EvalError} :
    op.onInts a b = .error err ↔
      (op.exactValue? a.toInt b.toInt = none ∧ err = .divisionByZero) ∨
        ∃ n, op.exactValue? a.toInt b.toInt = some n ∧
          (op.LeastByMinusOne a.toInt b.toInt ∨ ¬ InRange n) ∧
          err = .overflow (.binary op.toBinary) := by
  rw [onInts_eq]
  cases op.exactValue? a.toInt b.toInt with
  | none => simp [eq_comm]
  | some n =>
    by_cases least : op.LeastByMinusOne a.toInt b.toInt
    · simp [least, eq_comm]
    · simp [least, fitting_eq_error]

theorem apply_toBinary (op : ArithOp) (v w : Value) : op.toBinary.apply v w = op.apply v w := by
  cases op <;> rfl

theorem apply_ints (op : ArithOp) (a b : Int64) : op.apply (.int a) (.int b) = op.onInts a b := rfl

end ArithOp

namespace Expr

/-- Integer literals and variables bound to integers, under signs and arithmetic. -/
inductive Integral (facts : Facts) : Expr → Prop
  | literal (n : Int64) : Integral facts (.literal (.int n))
  | var {name : String} {n : Int64} (bound : facts.get? name = some (.int n)) :
      Integral facts (.var name)
  | neg {e : Expr} (operand : Integral facts e) : Integral facts (.unary .neg e)
  | arith (op : ArithOp) {left right : Expr} (hleft : Integral facts left)
      (hright : Integral facts right) : Integral facts (.binary op.toBinary left right)

/-- The value of a tree over unbounded integers, if no divisor is zero. -/
def exactValue? (facts : Facts) : Expr → Option Int
  | literal (.int n) => some n.toInt
  | var name =>
    match facts.get? name with
    | some (.int n) => some n.toInt
    | _ => none
  | unary .neg e => (e.exactValue? facts).map (- ·)
  | binary op left right => do
    let op ← op.arith?
    let a ← left.exactValue? facts
    let b ← right.exactValue? facts
    op.exactValue? a b
  | _ => none

/-- The operation at the root. -/
def operation? : Expr → Option Operation
  | unary op _ => some (.unary op)
  | binary op _ _ => some (.binary op)
  | _ => none

/-- A division or a remainder with a right operand that evaluates to zero. -/
def DividesByZero (facts : Facts) (s : Expr) : Prop :=
  ∃ op left right, (op = .div ∨ op = .rem) ∧ s = .binary op left right ∧
    right.eval facts = .ok (.int 0)

/-- The tree has an exact value, and it is in range. -/
def Representable (facts : Facts) (s : Expr) : Prop :=
  ∃ n, s.exactValue? facts = some n ∧ InRange n

/-- The remainder of the least integer by minus one. -/
def LeastByMinusOne (facts : Facts) (s : Expr) : Prop :=
  ∃ left right, s = .binary .rem left right ∧
    left.exactValue? facts = some Int64.minValue.toInt ∧ right.exactValue? facts = some (-1)

/-- The exact value of the tree is in range, and so is the quotient if the tree is a remainder. -/
def Computable (facts : Facts) (s : Expr) : Prop :=
  s.Representable facts ∧ ¬ s.LeastByMinusOne facts

variable {facts : Facts}

theorem exactValue?_var {name : String} {n : Int64} (bound : facts.get? name = some (.int n)) :
    (var name).exactValue? facts = some n.toInt := by
  rw [exactValue?, bound]

theorem exactValue?_arith (op : ArithOp) {left right : Expr} {a b : Int}
    (hleft : left.exactValue? facts = some a) (hright : right.exactValue? facts = some b) :
    (binary op.toBinary left right).exactValue? facts = op.exactValue? a b := by
  rw [exactValue?, arith?_toBinary, hleft, hright]
  rfl

theorem leastByMinusOne_arith {op : ArithOp} {left right : Expr} {a b : Int}
    (hleft : left.exactValue? facts = some a) (hright : right.exactValue? facts = some b) :
    (binary op.toBinary left right).LeastByMinusOne facts ↔ op.LeastByMinusOne a b := by
  constructor
  · rintro ⟨left', right', htree, hdividend, hdivisor⟩
    obtain ⟨hop, rfl, rfl⟩ : op.toBinary = .rem ∧ left = left' ∧ right = right' := by
      simpa using htree
    have hrem : op = .rem := by cases op <;> first | rfl | simp [ArithOp.toBinary] at hop
    rw [hleft] at hdividend
    rw [hright] at hdivisor
    exact ⟨hrem, Option.some.inj hdividend, Option.some.inj hdivisor⟩
  · rintro ⟨rfl, rfl, rfl⟩
    exact ⟨left, right, rfl, hleft, hright⟩

theorem computable_of_exact {s : Expr} {n : Int64} (exact : s.exactValue? facts = some n.toInt)
    (hrem : ∀ left right, s ≠ .binary .rem left right) : s.Computable facts := by
  refine ⟨⟨_, exact, inRange_toInt n⟩, ?_⟩
  rintro ⟨left, right, htree, -⟩
  exact hrem left right htree

/-- What evaluates has its exact value, and so has every subtree. -/
theorem Integral.of_eval_ok {e : Expr} (h : e.Integral facts) {v : Value}
    (hv : e.eval facts = .ok v) :
    (∃ n : Int64, v = .int n ∧ e.exactValue? facts = some n.toInt) ∧
      e.Everywhere (Computable facts) := by
  -- both at once: that a node is computable is read off the exact values of its operands
  induction h generalizing v with
  | literal n =>
    rw [eval, Except.ok.injEq] at hv
    have exact : (Expr.literal (.int n)).exactValue? facts = some n.toInt := rfl
    exact ⟨⟨n, hv.symm, exact⟩, .leaf (computable_of_exact exact (by simp)) rfl⟩
  | @var name n bound =>
    rw [eval, bound, Except.ok.injEq] at hv
    have exact := exactValue?_var bound
    exact ⟨⟨n, hv.symm, exact⟩, .leaf (computable_of_exact exact (by simp)) rfl⟩
  | @neg e _ ih =>
    rw [eval, bind_eq_ok] at hv
    obtain ⟨w, hw, happly⟩ := hv
    obtain ⟨⟨a, rfl, ha⟩, below⟩ := ih hw
    obtain ⟨n, hn, rfl⟩ := fitting_eq_ok.mp happly
    have exact : (unary .neg e).exactValue? facts = some n.toInt := by
      rw [exactValue?, ha, hn]
      rfl
    exact ⟨⟨n, rfl, exact⟩, .unary (computable_of_exact exact (by simp)) below⟩
  | @arith op left right _ _ ihleft ihright =>
    simp only [eval, bind_eq_ok, ArithOp.apply_toBinary] at hv
    obtain ⟨w, hw, u, hu, happly⟩ := hv
    obtain ⟨⟨a, rfl, ha⟩, belowleft⟩ := ihleft hw
    obtain ⟨⟨b, rfl, hb⟩, belowright⟩ := ihright hu
    rw [ArithOp.apply_ints, ArithOp.onInts_eq_ok] at happly
    obtain ⟨least, n, hn, rfl⟩ := happly
    have exact := (exactValue?_arith op ha hb).trans hn
    refine ⟨⟨n, rfl, exact⟩, .binary ⟨⟨_, exact, inRange_toInt n⟩, ?_⟩ belowleft belowright⟩
    rwa [leastByMinusOne_arith ha hb]

/-- What is wrong at the root of a tree although its operands evaluate. -/
inductive Fault (facts : Facts) : EvalError → Expr → Prop
  | zeroDivisor {s : Expr} (divides : s.DividesByZero facts)
      (undefined : s.exactValue? facts = none) : Fault facts .divisionByZero s
  | overflow {s : Expr} {operation : Operation} {n : Int} (root : s.operation? = some operation)
      (exact : s.exactValue? facts = some n) (refused : ¬ InRange n ∨ s.LeastByMinusOne facts) :
      Fault facts (.overflow operation) s

theorem Fault.not_computable {err : EvalError} {s : Expr} (h : Fault facts err s) :
    ¬ s.Computable facts := by
  rintro ⟨⟨n, hn, range⟩, least⟩
  cases h with
  | zeroDivisor _ undefined => simp [undefined] at hn
  | overflow _ exact refused =>
    obtain rfl := Option.some.inj (exact.symm.trans hn)
    exact refused.elim (· range) least

/-- What fails has a fault somewhere, which is the reason. -/
theorem Integral.exists_fault {e : Expr} (h : e.Integral facts) {err : EvalError}
    (herr : e.eval facts = .error err) : e.Somewhere (Fault facts err) := by
  induction h with
  | literal n => cases herr
  | var bound =>
    rw [eval, bound] at herr
    cases herr
  | @neg e operand ih =>
    rw [eval, bind_eq_error] at herr
    obtain herr | ⟨v, hv, happly⟩ := herr
    · exact .deeper (by simp) (ih herr)
    obtain ⟨⟨a, rfl, ha⟩, -⟩ := operand.of_eval_ok hv
    obtain ⟨range, rfl⟩ := fitting_eq_error.mp happly
    have exact : (unary .neg e).exactValue? facts = some (-a.toInt) := by
      rw [exactValue?, ha]
      rfl
    exact .here (.overflow rfl exact (.inl range))
  | @arith op left right hleft hright ihleft ihright =>
    simp only [eval, bind_eq_error, ArithOp.apply_toBinary] at herr
    -- the left operand fails, or the right one does after it, or else the operation itself
    obtain herr | ⟨v, hv, herr | ⟨w, hw, happly⟩⟩ := herr
    · exact .deeper (by simp) (ihleft herr)
    · exact .deeper (by simp) (ihright herr)
    obtain ⟨⟨a, rfl, ha⟩, -⟩ := hleft.of_eval_ok hv
    obtain ⟨⟨b, rfl, hb⟩, -⟩ := hright.of_eval_ok hw
    have exact := exactValue?_arith op ha hb
    rw [ArithOp.apply_ints, ArithOp.onInts_eq_error] at happly
    obtain ⟨hnone, rfl⟩ | ⟨n, hn, refused, rfl⟩ := happly
    · obtain ⟨hop, hzero⟩ := ArithOp.exactValue?_eq_none.mp hnone
      obtain rfl : b = 0 := Int64.toInt_inj.mp hzero
      refine .here (.zeroDivisor ⟨_, left, right, ?_, rfl, hw⟩ (exact.trans hnone))
      exact hop.imp (congrArg ArithOp.toBinary) (congrArg ArithOp.toBinary)
    · rw [← leastByMinusOne_arith ha hb] at refused
      exact .here (.overflow rfl (exact.trans hn) refused.symm)

namespace Integral

/-- A tree over integers evaluates to its exact value if it evaluates. Otherwise it divides by zero
somewhere or leaves the range, and it is a division by zero only if some divisor is zero. -/
theorem eval_exact {e : Expr} (h : e.Integral facts) :
    (∀ v, e.eval facts = .ok v →
        ∃ n : Int64, v = .int n ∧ e.exactValue? facts = some n.toInt) ∧
      (∀ err, e.eval facts = .error err →
        err = .divisionByZero ∨ ∃ operation, err = .overflow operation) ∧
      (e.eval facts = .error .divisionByZero → e.Somewhere (DividesByZero facts)) := by
  refine ⟨fun v hv => (h.of_eval_ok hv).1, fun err herr => ?_, fun herr => ?_⟩
  · obtain ⟨s, fault⟩ := (h.exists_fault herr).exists
    cases fault with
    | zeroDivisor => exact .inl rfl
    | overflow => exact .inr ⟨_, rfl⟩
  · refine (h.exists_fault herr).mono fun s fault => ?_
    cases fault with
    | zeroDivisor divides => exact divides

/-- The least integer is the exact difference, and a divisor is zero only where it is computed. -/
theorem eval_exact_limits :
    let facts := Facts.ofList [("a", .int 5)]
    let least : Expr := .binary .sub (.unary .neg (.literal (.int Int64.maxValue)))
      (.literal (.int 1))
    let undefined : Expr := .binary .div (.literal (.int 7))
      (.binary .sub (.var "a") (.literal (.int 5)))
    (least.Integral facts ∧ least.eval facts = .ok (.int Int64.minValue) ∧
        least.exactValue? facts = some Int64.minValue.toInt) ∧
      undefined.Integral facts ∧ undefined.eval facts = .error .divisionByZero ∧
        undefined.Somewhere (DividesByZero facts) := by
  intro facts least undefined
  have hleast : least.Integral facts := .arith .sub (.neg (.literal _)) (.literal _)
  have hundefined : undefined.Integral facts :=
    .arith .div (.literal _) (.arith .sub (.var (n := 5) rfl) (.literal _))
  have heval : least.eval facts = .ok (.int Int64.minValue) := by rfl
  have herror : undefined.eval facts = .error .divisionByZero := by rfl
  obtain ⟨n, hn, exact⟩ := (eval_exact hleast).1 _ heval
  cases hn
  exact ⟨⟨hleast, heval, exact⟩, hundefined, herror, (eval_exact hundefined).2.2 herror⟩

/-- A tree over integers evaluates exactly if every subtree has an exact value in range and none is
the remainder of the least integer by minus one. A tree that leaves the range has a subtree of the
operation in question whose exact value is out of range, or such a remainder. -/
theorem evaluates_iff {e : Expr} (h : e.Integral facts) :
    (e.Everywhere (Computable facts) ↔
        ∃ n : Int64, e.exactValue? facts = some n.toInt ∧ e.eval facts = .ok (.int n)) ∧
      ∀ operation, e.eval facts = .error (.overflow operation) →
        e.Somewhere fun s => s.operation? = some operation ∧
          ((∃ n, s.exactValue? facts = some n ∧ ¬ InRange n) ∨ s.LeastByMinusOne facts) := by
  refine ⟨⟨fun computable => ?_, fun ⟨n, _, hn⟩ => (h.of_eval_ok hn).2⟩, fun operation herr => ?_⟩
  · cases heval : e.eval facts with
    | ok v =>
      obtain ⟨⟨n, rfl, exact⟩, -⟩ := h.of_eval_ok heval
      exact ⟨n, exact, rfl⟩
    | error err =>
      obtain ⟨s, hs, fault⟩ := computable.meets (h.exists_fault heval)
      exact absurd hs fault.not_computable
  · refine (h.exists_fault herr).mono fun s fault => ?_
    cases fault with
    | overflow root exact refused => exact ⟨root, refused.imp_left fun range => ⟨_, exact, range⟩⟩

/-- The least integer and its successor are no obstacle, but the least integer has no negative. -/
theorem evaluates_iff_least :
    let facts := Facts.ofList [("a", .int Int64.minValue)]
    let product : Expr := .binary .mul (.binary .add (.var "a") (.literal (.int 1)))
      (.unary .neg (.literal (.int 1)))
    let negative : Expr := .unary .neg (.var "a")
    (product.Integral facts ∧ product.Everywhere (Computable facts) ∧
        product.eval facts = .ok (.int Int64.maxValue)) ∧
      negative.Integral facts ∧ negative.eval facts = .error (.overflow (.unary .neg)) ∧
        negative.Somewhere fun s => ∃ n, s.exactValue? facts = some n ∧ ¬ InRange n := by
  intro facts product negative
  have hvar : (Expr.var "a").Integral facts := .var (n := Int64.minValue) rfl
  have hproduct : product.Integral facts :=
    .arith .mul (.arith .add hvar (.literal 1)) (.neg (.literal 1))
  have hnegative : negative.Integral facts := .neg hvar
  have computable : product.Everywhere (Computable facts) := by
    have hsum : (Expr.binary .add (.var "a") (.literal (.int 1))).Everywhere (Computable facts) :=
      .binary (computable_of_exact (n := -Int64.maxValue) rfl (by simp))
        (.leaf (computable_of_exact (n := Int64.minValue) rfl (by simp)) rfl)
        (.leaf (computable_of_exact (n := 1) rfl (by simp)) rfl)
    have hfactor : (Expr.unary .neg (.literal (.int 1))).Everywhere (Computable facts) :=
      .unary (computable_of_exact (n := -1) rfl (by simp))
        (.leaf (computable_of_exact (n := 1) rfl (by simp)) rfl)
    exact .binary (computable_of_exact (n := Int64.maxValue) rfl (by simp)) hsum hfactor
  obtain ⟨n, exact, heval⟩ := (evaluates_iff hproduct).1.mp computable
  obtain rfl : Int64.maxValue = n := Int64.toInt_inj.mp (Option.some.inj exact)
  have herror : negative.eval facts = .error (.overflow (.unary .neg)) := by rfl
  refine ⟨⟨hproduct, computable, heval⟩, hnegative, herror, ?_⟩
  refine ((evaluates_iff hnegative).2 _ herror).mono fun s ⟨root, reason⟩ => ?_
  obtain hrange | ⟨left, right, rfl, -⟩ := reason
  · exact hrange
  · cases root

/-- The remainder of the least integer by minus one is zero and yet out of range. -/
theorem least_remainder_refused :
    let facts := Facts.ofList [("a", .int Int64.minValue)]
    let e : Expr := .binary .rem (.var "a") (.unary .neg (.literal (.int 1)))
    parse "a % -1" = .ok e ∧ e.Integral facts ∧ e.Everywhere (Representable facts) ∧
      e.exactValue? facts = some 0 ∧ e.eval facts = .error (.overflow (.binary .rem)) := by
  intro facts e
  have hvar : (Expr.var "a").Representable facts := ⟨Int64.minValue.toInt, rfl, by decide⟩
  have hone : (Expr.literal (.int 1)).Representable facts := ⟨1, rfl, by decide⟩
  have hminus : (Expr.unary .neg (.literal (.int 1))).Everywhere (Representable facts) :=
    .unary ⟨-1, rfl, by decide⟩ (.leaf hone rfl)
  have hall : e.Everywhere (Representable facts) :=
    .binary ⟨0, rfl, by decide⟩ (.leaf hvar rfl) hminus
  refine ⟨by decide +kernel, ?_, hall, rfl, rfl⟩
  exact .arith .rem (.var (n := Int64.minValue) rfl) (.neg (.literal 1))

end Integral

end Expr

end Rulebook.Condition
