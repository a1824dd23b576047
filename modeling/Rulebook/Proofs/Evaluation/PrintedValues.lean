import Rulebook.Evaluator
import Rulebook.Proofs.Evaluation.Integers
import Rulebook.Proofs.Grammar.Printing

/-!
# Printed values as conditions

The text of a value is a condition for the value itself, on any facts. Reading it does not give back
the value but a tree: a negative integer is a sign in front of a literal and a list is a list of
trees. The tree has the same text as the value, can be read from it, and evaluates to the value.
-/
namespace Rulebook

open Condition Condition.Grammar

namespace Value

/-- Values made of nulls, booleans, integers with a negative, strings without a single quote, and
lists of such values. -/
inductive Legible : Value → Prop
  | null : Legible .null
  | bool (b : Bool) : Legible (.bool b)
  | int {n : Int64} (h : n ≠ Int64.minValue) : Legible (.int n)
  | string {s : String} (h : '\x27' ∉ s.toList) : Legible (.string s)
  | list {items : List Value} (h : ∀ v ∈ items, Legible v) : Legible (.list items)

mutual

/-- The tree that the text of a value is read as. -/
def expr : Value → Expr
  | int n => if n.toInt < 0 then .unary .neg (.literal (.int (-n))) else .literal (.int n)
  | list items => .list (exprs items)
  | v => .literal v

def exprs : List Value → List Expr
  | [] => []
  | v :: vs => v.expr :: exprs vs

end

theorem exprs_eq_map (vs : List Value) : exprs vs = vs.map expr := by
  induction vs with
  | nil => rfl
  | cons v vs ih => rw [exprs, ih, List.map_cons]

theorem toInt_neg_of_ne_minValue {n : Int64} (h : n ≠ Int64.minValue) : (-n).toInt = -n.toInt := by
  have least : n.toInt ≠ -2 ^ 63 := fun hn =>
    h (Int64.toInt_inj.mp (hn.trans Int64.toInt_minValue.symm))
  have := n.le_toInt
  have := n.toInt_lt
  rw [Int64.toInt_neg]
  exact Int.bmod_eq_of_le (by omega) (by omega)

theorem listChars_map_expr {vs : List Value} (h : ∀ v ∈ vs, v.expr.chars = v.chars) :
    Expr.listChars (vs.map expr) = itemsChars vs := by
  induction vs with
  | nil => rfl
  | cons v vs ih =>
    have hv : v.expr.chars = v.chars := h v (by simp)
    cases vs with
    | nil => exact hv
    | cons w vs =>
      have hrest := ih fun u hu => h u (by simp [hu])
      rw [List.map_cons, List.map_cons, Expr.listChars, hv, itemsChars, ← hrest, List.map_cons]

/-- The tree has the text of the value. -/
theorem chars_expr {v : Value} (h : v.Legible) : v.expr.chars = v.chars := by
  induction h with
  | null | bool | string => rfl
  | @int n h =>
    rw [expr]
    split
    · next negative =>
      have magnitude : Decimal.intChars (-n.toInt) = Decimal.natChars n.toInt.natAbs := by
        rw [Decimal.intChars, if_neg (by omega), Int.natAbs_neg]
      rw [Expr.chars, Expr.chars, Value.chars, Value.chars, toInt_neg_of_ne_minValue h, magnitude,
        Decimal.intChars_of_neg negative]
      rfl
    · rfl
  | list _ ih => rw [expr, exprs_eq_map, Expr.chars, Value.chars, listChars_map_expr ih]

/-- The tree is read as it is printed. -/
theorem printable_expr {v : Value} (h : v.Legible) : v.expr.Everywhere PrintableNode := by
  induction h with
  | null | bool => exact .leaf trivial rfl
  | string h => exact .leaf h rfl
  | @int n h =>
    rw [expr]
    split
    · next negative =>
      have magnitude : 0 ≤ (-n).toInt := by
        rw [toInt_neg_of_ne_minValue h]
        omega
      exact .unary trivial (.leaf magnitude rfl)
    · next nonneg => exact .leaf (Int.not_lt.mp nonneg) rfl
  | list _ ih =>
    rw [expr, exprs_eq_map]
    exact .node trivial (List.forall_mem_map.mpr ih)

theorem evalAll_map_expr {facts : Facts} {vs : List Value}
    (h : ∀ v ∈ vs, v.expr.eval facts = .ok v) : Expr.evalAll facts (vs.map expr) = .ok vs := by
  induction vs with
  | nil => rfl
  | cons v vs ih =>
    rw [List.map_cons, Expr.evalAll, h v (by simp), ih fun u hu => h u (by simp [hu])]
    rfl

/-- The tree evaluates to the value. -/
theorem eval_expr {v : Value} (h : v.Legible) (facts : Facts) : v.expr.eval facts = .ok v := by
  induction h with
  | null | bool | string => rfl
  | @int n h =>
    rw [expr]
    split
    · have back : -(-n).toInt = n.toInt := by rw [toInt_neg_of_ne_minValue h, Int.neg_neg]
      exact fitting_eq_ok.mpr ⟨n, back.symm, rfl⟩
    · rfl
  | list _ ih =>
    rw [expr, exprs_eq_map, Expr.eval, evalAll_map_expr ih]
    rfl

/-- The text of a value evaluates to the value. -/
theorem evaluate_printed {v : Value} (h : v.Legible) {σ : Type} (facts : Facts) (memory : σ) :
    Evaluator.plain v.text facts memory = (.ok v, memory) := by
  have htext : v.expr.text = v.text := congrArg String.ofList (chars_expr h)
  have hparse : parse v.text = .ok v.expr :=
    htext ▸ parse_of_describes (describes_text (printable_expr h))
  rw [Evaluator.plain, Evaluator.ofFunction_apply, Condition.evaluate, hparse]
  exact congrArg (·, memory) (eval_expr h facts)

/-- A string may hold what lists and conditions are written with. -/
theorem evaluate_printed_nested :
    let v : Value := .list [.int (-5), .list [.null, .bool true], .string "\x7d, \x7bnot"]
    v.Legible ∧ v.text = "\x7b-5, \x7bnull, true\x7d, '\x7d, \x7bnot'\x7d" ∧
      Evaluator.plain v.text .empty () = (.ok v, ()) := by
  intro v
  have hinner : (Value.list [.null, .bool true]).Legible :=
    .list (List.forall_mem_cons.mpr ⟨.null, List.forall_mem_singleton.mpr (.bool true)⟩)
  have hnegative : (Value.int (-5)).Legible := .int (by decide)
  have hstring : (Value.string "\x7d, \x7bnot").Legible := .string (by decide)
  have legible : v.Legible := .list <| List.forall_mem_cons.mpr
    ⟨hnegative, List.forall_mem_cons.mpr ⟨hinner, List.forall_mem_singleton.mpr hstring⟩⟩
  exact ⟨legible, by decide, evaluate_printed legible .empty ()⟩

end Value

end Rulebook
