import Mathlib.Data.List.Basic
import Rulebook.Condition.Eval

/-!
# Results, and the value of a conjunction and of a disjunction

When a computation that may fail succeeds, and when a tree of one of the two connectives is true. A
failure or a value that is not boolean on the right of a disjunction does not matter if the left
side is true; on the left it decides.
-/
namespace Rulebook

section Results

variable {ε α β : Type}

theorem bind_eq_ok {result : Except ε α} {next : α → Except ε β} {b : β} :
    result >>= next = .ok b ↔ ∃ a, result = .ok a ∧ next a = .ok b := by
  cases result <;> simp [bind, Except.bind]

theorem bind_eq_error {result : Except ε α} {next : α → Except ε β} {e : ε} :
    result >>= next = .error e ↔ result = .error e ∨ ∃ a, result = .ok a ∧ next a = .error e := by
  cases result <;> simp [bind, Except.bind]

theorem map_eq_ok {result : Except ε α} {f : α → β} {b : β} :
    result.map f = .ok b ↔ ∃ a, result = .ok a ∧ f a = b := by
  cases result <;> simp [Except.map]

theorem toOption_eq_some {result : Except ε α} {a : α} :
    result.toOption = some a ↔ result = .ok a := by
  cases result <;> simp [Except.toOption]

end Results

namespace Condition

theorem asBoolean_eq_ok {use : BooleanUse} {v : Value} {b : Bool} :
    asBoolean use v = .ok b ↔ v = .bool b := by
  cases v <;> simp [asBoolean, Value.asBool?]

namespace Expr

variable {facts : Facts}

/-- A conjunction is true if both sides are. -/
theorem eval_and_eq_true {left right : Expr} :
    (and left right).eval facts = .ok (.bool true) ↔
      left.eval facts = .ok (.bool true) ∧ right.eval facts = .ok (.bool true) := by
  simp only [eval, bind_eq_ok, asBoolean_eq_ok]
  constructor
  · rintro ⟨_, hleft, holds, rfl, h⟩
    cases holds with
    | false => simp at h
    | true =>
      simp only [if_true, bind_eq_ok, asBoolean_eq_ok] at h
      obtain ⟨_, hright, b, rfl, hb⟩ := h
      obtain rfl : b = true := by simpa using hb
      exact ⟨hleft, hright⟩
  · rintro ⟨hleft, hright⟩
    exact ⟨_, hleft, true, rfl, by simp [hright, bind_eq_ok, asBoolean_eq_ok]⟩

/-- A disjunction is true if the left side is, or if the right one is where the left is false. -/
theorem eval_or_eq_true {left right : Expr} :
    (or left right).eval facts = .ok (.bool true) ↔
      left.eval facts = .ok (.bool true) ∨
        left.eval facts = .ok (.bool false) ∧ right.eval facts = .ok (.bool true) := by
  simp only [eval, bind_eq_ok, asBoolean_eq_ok]
  constructor
  · rintro ⟨_, hleft, holds, rfl, h⟩
    cases holds with
    | true => exact .inl hleft
    | false =>
      simp only [Bool.false_eq_true, if_false, bind_eq_ok, asBoolean_eq_ok] at h
      obtain ⟨_, hright, b, rfl, hb⟩ := h
      obtain rfl : b = true := by simpa using hb
      exact .inr ⟨hleft, hright⟩
  · rintro (hleft | ⟨hleft, hright⟩)
    · exact ⟨_, hleft, true, rfl, by simp⟩
    · exact ⟨_, hleft, false, rfl, by simp [hright, bind_eq_ok, asBoolean_eq_ok]⟩

section Booleans

variable {left right : Expr} {a b : Bool}

theorem eval_and_bool (hleft : left.eval facts = .ok (.bool a))
    (hright : right.eval facts = .ok (.bool b)) :
    (and left right).eval facts = .ok (.bool (a && b)) := by
  cases a <;> simp [eval, hleft, hright, asBoolean, Value.asBool?, bind, Except.bind]

theorem eval_or_bool (hleft : left.eval facts = .ok (.bool a))
    (hright : right.eval facts = .ok (.bool b)) :
    (or left right).eval facts = .ok (.bool (a || b)) := by
  cases a <;> simp [eval, hleft, hright, asBoolean, Value.asBool?, bind, Except.bind]

theorem eval_not_bool (hleft : left.eval facts = .ok (.bool a)) :
    (unary .not left).eval facts = .ok (.bool !a) := by
  rw [eval, hleft]
  rfl

end Booleans

theorem eval_foldl_and_eq_true {e : Expr} {es : List Expr} :
    (es.foldl .and e).eval facts = .ok (.bool true) ↔
      ∀ x ∈ e :: es, x.eval facts = .ok (.bool true) := by
  induction es generalizing e with
  | nil => simp
  | cons e' es ih =>
    rw [List.foldl_cons, ih]
    simp only [List.forall_mem_cons, eval_and_eq_true, and_assoc]

theorem exists_of_eval_foldl_or {e : Expr} {es : List Expr}
    (h : (es.foldl .or e).eval facts = .ok (.bool true)) :
    ∃ x ∈ e :: es, x.eval facts = .ok (.bool true) := by
  induction es generalizing e with
  | nil => exact ⟨e, by simp, h⟩
  | cons e' es ih =>
    obtain ⟨x, hx, htrue⟩ := ih h
    rcases List.mem_cons.mp hx with rfl | hx
    · rcases eval_or_eq_true.mp htrue with hleft | ⟨-, hright⟩
      · exact ⟨e, by simp, hleft⟩
      · exact ⟨e', by simp, hright⟩
    · exact ⟨x, by simp [hx], htrue⟩

end Expr

end Condition

end Rulebook
