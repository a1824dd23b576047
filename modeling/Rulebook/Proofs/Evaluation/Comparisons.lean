import Mathlib.Data.String.Basic
import Rulebook.Condition.Eval
import Rulebook.Proofs.Decimal

/-!
# Equality and order

The operators `==` and `!=` accept any two values and say the opposite of each other. The other
comparisons accept two values in both directions or in neither. Where they do, one value comes first
or the two are equal in the sense of `==`, and that alone decides all of them. Equality lets
integers and floats meet; where no float takes part it tells any two different values apart.
-/
namespace Rulebook

namespace Value

theorem order_string (s t : String) : (string s).order (string t) = some (compare s t) := rfl

/-- Values the other way round stand in the reverse order, or again in none. -/
theorem order_swap (a b : Value) : b.order a = (a.order b).map Ordering.swap := by
  cases a with
  | int m =>
    cases b with
    | int n => exact congrArg some Std.OrientedOrd.eq_swap
    | float y => exact Binary64.order_swap _ _
    | _ => rfl
  | float x =>
    cases b with
    | int | float => exact Binary64.order_swap _ _
    | _ => rfl
  | string s =>
    cases b with
    | string t =>
      rw [order_string, order_string, Std.OrientedOrd.eq_swap (a := t), Option.map_some]
    | _ => rfl
  | null | bool | list | map => cases b <;> rfl

/-- Values that have an order are equal where neither comes first. -/
theorem looseEq_of_order {a b : Value} {o : Ordering} (h : a.order b = some o) :
    a.looseEq b = (o == .eq) := by
  cases a with
  | int | float =>
    cases b with
    | int | float => exact congrArg (· == some .eq) h
    | _ => cases h
  | string s =>
    cases b with
    | string t =>
      obtain rfl : compare s t = o := Option.some.inj h
      exact Bool.eq_iff_iff.mpr (beq_iff_eq.trans (compare_eq_iff_eq.symm.trans beq_iff_eq.symm))
    | _ => cases h
  | null | bool | list | map => cases b <;> cases h

theorem order_eq_comm (a b : Value) : (a.order b == some .eq) = (b.order a == some .eq) := by
  rw [order_swap a b]
  rcases a.order b with _ | _ | _ | _ <;> rfl

mutual

theorem looseEq_comm : ∀ a b : Value, a.looseEq b = b.looseEq a
  | null, b => by cases b <;> rfl
  | bool x, b => by
    cases b with
    | bool y => exact Bool.beq_comm
    | _ => rfl
  | int m, b => by
    cases b with
    | int | float => exact order_eq_comm _ _
    | _ => rfl
  | float x, b => by
    cases b with
    | int | float => exact order_eq_comm _ _
    | _ => rfl
  | string s, b => by
    cases b with
    | string t => exact Bool.beq_comm
    | _ => rfl
  | list xs, b => by
    cases b with
    | list ys => exact looseEqItems_comm xs ys
    | _ => rfl
  | map xs, b => by
    cases b with
    | map ys => exact looseEqEntries_comm xs ys
    | _ => rfl

theorem looseEqItems_comm : ∀ xs ys : List Value, looseEqItems xs ys = looseEqItems ys xs
  | [], [] | [], _ :: _ | _ :: _, [] => rfl
  | x :: xs, y :: ys => by
    rw [looseEqItems, looseEq_comm x y, looseEqItems_comm xs ys, looseEqItems]

theorem looseEqEntries_comm : ∀ xs ys : List (String × Value),
    looseEqEntries xs ys = looseEqEntries ys xs
  | [], [] | [], _ :: _ | _ :: _, [] => rfl
  | (k, x) :: xs, (l, y) :: ys => by
    rw [looseEqEntries, looseEq_comm x y, looseEqEntries_comm xs ys, looseEqEntries, Bool.beq_comm]

end

/-- No part of the value is a float. -/
inductive FloatFree : Value → Prop
  | null : FloatFree .null
  | bool (b : Bool) : FloatFree (.bool b)
  | int (n : Int64) : FloatFree (.int n)
  | string (s : String) : FloatFree (.string s)
  | list {items : List Value} (h : ∀ v ∈ items, FloatFree v) : FloatFree (.list items)
  | map {entries : List (String × Value)} (h : ∀ e ∈ entries, FloatFree e.2) :
      FloatFree (.map entries)

/-- Of the values without floats only the value itself is loosely equal to it. -/
def Exact (v : Value) : Prop := ∀ w, w.FloatFree → (v.looseEq w = true ↔ v = w)

theorem looseEqItems_eq_true {xs : List Value} (exact : ∀ x ∈ xs, x.Exact) {ys : List Value}
    (free : ∀ y ∈ ys, y.FloatFree) : looseEqItems xs ys = true ↔ xs = ys := by
  induction xs generalizing ys with
  | nil => cases ys <;> simp [looseEqItems]
  | cons x xs ih =>
    cases ys with
    | nil => simp [looseEqItems]
    | cons y ys =>
      obtain ⟨hx, hxs⟩ := List.forall_mem_cons.mp exact
      obtain ⟨hy, hys⟩ := List.forall_mem_cons.mp free
      rw [looseEqItems, Bool.and_eq_true, hx y hy, ih hxs hys, List.cons.injEq]

theorem looseEqEntries_eq_true {xs : List (String × Value)} (exact : ∀ x ∈ xs, x.2.Exact)
    {ys : List (String × Value)} (free : ∀ y ∈ ys, y.2.FloatFree) :
    looseEqEntries xs ys = true ↔ xs = ys := by
  induction xs generalizing ys with
  | nil => cases ys <;> simp [looseEqEntries]
  | cons x xs ih =>
    cases ys with
    | nil => simp [looseEqEntries]
    | cons y ys =>
      obtain ⟨hx, hxs⟩ := List.forall_mem_cons.mp exact
      obtain ⟨hy, hys⟩ := List.forall_mem_cons.mp free
      rw [looseEqEntries, Bool.and_eq_true, Bool.and_eq_true, beq_iff_eq, hx y.2 hy, ih hxs hys,
        List.cons.injEq, Prod.ext_iff]

theorem FloatFree.exact {v : Value} (h : v.FloatFree) : v.Exact := by
  intro w hw
  induction h generalizing w with
  | null => cases hw <;> simp [looseEq, order]
  | bool b => cases hw <;> simp [looseEq, order]
  | int m =>
    cases hw with
    | int n => simp [looseEq, order, Int64.toInt_inj]
    | _ => simp [looseEq, order]
  | string s => cases hw <;> simp [looseEq, order]
  | list _ ih =>
    cases hw with
    | list free => rw [looseEq, looseEqItems_eq_true ih free, list.injEq]
    | _ => simp [looseEq, order]
  | map _ ih =>
    cases hw with
    | map free => rw [looseEq, looseEqEntries_eq_true ih free, map.injEq]
    | _ => simp [looseEq, order]

end Value

namespace Condition

namespace OrderOp

theorem apply_toBinary (op : OrderOp) (a b : Value) : op.toBinary.apply a b = op.apply a b := by
  cases op <;> rfl

variable {a b : Value}

theorem apply_of_unordered (h : a.order b = none) (op : OrderOp) :
    op.toBinary.apply a b = .error (.typeMismatch (.binary op.toBinary) a.kind b.kind) := by
  rw [apply_toBinary, OrderOp.apply, h]

theorem apply_of_ordered {o : Ordering} (h : a.order b = some o) (op : OrderOp) :
    op.toBinary.apply a b = .ok (.bool (op.holds o)) := by
  rw [apply_toBinary, OrderOp.apply, h]

end OrderOp

/-- Any two values are equal or different, whichever comes first, and unless a float takes part they
are equal only if they are the same. Either no operator orders them in either direction, or one of
smaller, equal and greater holds of them and decides what every operator says in both directions. -/
theorem comparisons_coherent (a b : Value) :
    (∃ equal : Bool, BinaryOp.eq.apply a b = .ok (.bool equal) ∧
      BinaryOp.ne.apply a b = .ok (.bool !equal) ∧ BinaryOp.eq.apply b a = .ok (.bool equal) ∧
      (a.FloatFree → b.FloatFree → (equal = true ↔ a = b))) ∧
    ((∀ op : OrderOp,
        op.toBinary.apply a b = .error (.typeMismatch (.binary op.toBinary) a.kind b.kind) ∧
        op.toBinary.apply b a = .error (.typeMismatch (.binary op.toBinary) b.kind a.kind)) ∨
      ∃ less equal greater : Bool, less.toNat + equal.toNat + greater.toNat = 1 ∧
        BinaryOp.eq.apply a b = .ok (.bool equal) ∧
        BinaryOp.lt.apply a b = .ok (.bool less) ∧ BinaryOp.gt.apply b a = .ok (.bool less) ∧
        BinaryOp.gt.apply a b = .ok (.bool greater) ∧
        BinaryOp.lt.apply b a = .ok (.bool greater) ∧
        BinaryOp.le.apply a b = .ok (.bool !greater) ∧
        BinaryOp.ge.apply b a = .ok (.bool !greater) ∧
        BinaryOp.ge.apply a b = .ok (.bool !less) ∧
        BinaryOp.le.apply b a = .ok (.bool !less)) := by
  have hback := Value.order_swap a b
  constructor
  · exact ⟨a.looseEq b, rfl, rfl, by rw [a.looseEq_comm b]; rfl, fun ha hb => ha.exact b hb⟩
  cases h : a.order b with
  | none =>
    rw [h] at hback
    exact .inl fun op => ⟨op.apply_of_unordered h, op.apply_of_unordered hback⟩
  | some o =>
    rw [h] at hback
    have forth (op : OrderOp) := op.apply_of_ordered h
    have back (op : OrderOp) := op.apply_of_ordered hback
    have equal : BinaryOp.eq.apply a b = .ok (.bool (o == .eq)) := by
      rw [BinaryOp.apply, Value.looseEq_of_order h]
    refine .inr ⟨o == .lt, o == .eq, o == .gt, ?_, equal, forth .lt, (back .gt).trans ?_,
      forth .gt, (back .lt).trans ?_, forth .le, (back .ge).trans ?_, forth .ge,
      (back .le).trans ?_⟩
    all_goals cases o <;> rfl

/-- Lists are told apart by what is nested in them. -/
theorem comparisons_coherent_nested :
    let a : Value := .list [.int 1, .map [("k", .null)]]
    let b : Value := .list [.int 1, .map [("k", .bool false)]]
    a.FloatFree ∧ b.FloatFree ∧ a ≠ b ∧ BinaryOp.eq.apply a b = .ok (.bool false) ∧
      BinaryOp.ne.apply a b = .ok (.bool true) := by
  intro a b
  have ha : a.FloatFree := .list <| List.forall_mem_cons.mpr
    ⟨.int 1, List.forall_mem_singleton.mpr (.map (List.forall_mem_singleton.mpr .null))⟩
  have hb : b.FloatFree := .list <| List.forall_mem_cons.mpr
    ⟨.int 1, List.forall_mem_singleton.mpr (.map (List.forall_mem_singleton.mpr (.bool false)))⟩
  obtain ⟨equal, heq, hne, -, exact⟩ := (comparisons_coherent a b).1
  have differ : a ≠ b := by simp [a, b]
  obtain rfl : equal = false := Bool.eq_false_iff.mpr fun h => differ ((exact ha hb).mp h)
  exact ⟨ha, hb, differ, heq, hne⟩

/-- An integer and a float may be equal and yet not the same. -/
example : BinaryOp.eq.apply (.int 1) (.float 1.0) = .ok (.bool true) := by rfl

end Condition

end Rulebook
