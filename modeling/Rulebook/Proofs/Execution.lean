import Rulebook.Engine
import Rulebook.Proofs.Evaluation.Traces

/-!
# What an execution reports

An execution goes through its items up to the first that fires and reports that one. Items before
it were silent: they did not fire or failed. The sources handed to the evaluator are those of the
items gone through, in their order.

A detailed execution comes to the same end as a plain one and leaves the same memory, whatever the
evaluator keeps in it. Beside the result it names the items it went through, in their order, and the
failures among them. Only a rule can fail, so every failure is that of a rule's condition, and the
one item that fires is never among them.
-/
namespace Rulebook

open Condition

variable {σ : Type} {f : String → Facts → Except EvalError Value} {facts : Facts}

namespace Item

/-- The message of an item that fires. -/
def message? (f : String → Facts → Except EvalError Value) (facts : Facts) (item : Item) :
    Option String := (item.answer f facts).toOption.join

/-- The failure of an item that fails, under its name. -/
def failure? (f : String → Facts → Except EvalError Value) (facts : Facts) (item : Item) :
    Option (String × String) :=
  match item.answer f facts with
  | .ok _ => none
  | .error e => some (item.name, e.message)

/-- The item does not fire or fails. -/
def Silent (f : String → Facts → Except EvalError Value) (facts : Facts) (item : Item) : Prop :=
  item.answer f facts = .ok none ∨ ∃ e, item.answer f facts = .error e

theorem message?_eq_some {item : Item} {message : String} :
    item.message? f facts = some message ↔ item.answer f facts = .ok (some message) := by
  unfold message?
  cases item.answer f facts <;> simp [Except.toOption]

theorem message?_eq_none {item : Item} : item.message? f facts = none ↔ item.Silent f facts := by
  unfold message? Silent
  cases item.answer f facts <;> simp [Except.toOption]

/-- What a rule or a group is silent for: a condition that is not true, or members that decide
against it. -/
theorem silent_iff {item : Item} : item.Silent f facts ↔
    (∀ rule, item = .rule rule → rule.holds f facts = false) ∧
      ∀ group, item = .group group → group.triggers f facts = false := by
  simp only [Silent, answer_eq_none, answer_eq_error]
  cases item with
  | rule rule => cases hf : f rule.condition facts <;> simp [Rule.holds, hf]
  | group group => simp

theorem failure?_eq_some {item : Item} {entry : String × String} :
    item.failure? f facts = some entry ↔
      ∃ e, item.answer f facts = .error e ∧ entry = (item.name, e.message) := by
  unfold failure?
  cases item.answer f facts <;> simp [eq_comm]

theorem failure?_of_answer {item : Item} {message : Option String}
    (h : item.answer f facts = .ok message) : item.failure? f facts = none := by
  simp [failure?, h]

end Item

namespace Execution

/-- The items that are evaluated. -/
def reached (f : String → Facts → Except EvalError Value) (facts : Facts) (items : List Item) :
    List Item := upToFirst (fun item => (item.message? f facts).isSome) items

/-- The sources handed over. -/
def handed (f : String → Facts → Except EvalError Value) (facts : Facts) (items : List Item) :
    List String := (reached f facts items).flatMap (Item.handed f facts)

/-- What the first item that fires is reported as. -/
def verdict (f : String → Facts → Except EvalError Value) (facts : Facts) (items : List Item) :
    Verdict :=
  (items.findSome? fun item =>
    (item.message? f facts).map (Verdict.matched item.name)).getD .noMatch

/-- The names of the evaluated items and the failures among them. -/
def diagnostics (f : String → Facts → Except EvalError Value) (facts : Facts) (items : List Item) :
    Diagnostics :=
  ⟨(reached f facts items).map Item.name, (reached f facts items).filterMap (Item.failure? f facts)⟩

section Lists

variable {before after items : List Item} {item : Item} {message : String}

theorem reached_of_silent (h : ∀ i ∈ items, i.Silent f facts) : reached f facts items = items :=
  upToFirst_of_none fun i hi => by simp [Item.message?_eq_none.mpr (h i hi)]

theorem reached_append (h : ∀ i ∈ before, i.Silent f facts)
    (fires : item.answer f facts = .ok (some message)) :
    reached f facts (before ++ item :: after) = before ++ [item] :=
  upToFirst_append (fun i hi => by simp [Item.message?_eq_none.mpr (h i hi)])
    (by simp [Item.message?_eq_some.mpr fires])

theorem verdict_of_silent (h : ∀ i ∈ items, i.Silent f facts) :
    verdict f facts items = .noMatch := by
  have hnone : items.findSome? (fun item =>
      (item.message? f facts).map (Verdict.matched item.name)) = none :=
    List.findSome?_eq_none_iff.mpr fun i hi => by simp [Item.message?_eq_none.mpr (h i hi)]
  rw [verdict, hnone, Option.getD_none]

theorem verdict_append (h : ∀ i ∈ before, i.Silent f facts)
    (fires : item.answer f facts = .ok (some message)) :
    verdict f facts (before ++ item :: after) = .matched item.name message := by
  have hsome : (before ++ item :: after).findSome? (fun item =>
        (item.message? f facts).map (Verdict.matched item.name)) =
      some (.matched item.name message) :=
    List.findSome?_eq_some_iff.mpr ⟨before, item, after, rfl,
      by simp [Item.message?_eq_some.mpr fires],
      fun i hi => by simp [Item.message?_eq_none.mpr (h i hi)]⟩
  rw [verdict, hsome, Option.getD_some]

/-- A list is silent or has a first item that fires. -/
theorem silent_or_fires (f : String → Facts → Except EvalError Value) (facts : Facts)
    (items : List Item) :
    (∀ i ∈ items, i.Silent f facts) ∨ ∃ before item after message,
      items = before ++ item :: after ∧ (∀ i ∈ before, i.Silent f facts) ∧
        item.answer f facts = .ok (some message) := by
  induction items with
  | nil => exact .inl (by simp)
  | cons item items ih =>
    cases hmessage : item.message? f facts with
    | some message =>
      exact .inr ⟨[], item, items, message, rfl, by simp, Item.message?_eq_some.mp hmessage⟩
    | none =>
      have silent := Item.message?_eq_none.mp hmessage
      rcases ih with others | ⟨before, i, after, message, rfl, others, fires⟩
      · exact .inl (List.forall_mem_cons.mpr ⟨silent, others⟩)
      · exact .inr ⟨item :: before, i, after, message, rfl,
          List.forall_mem_cons.mpr ⟨silent, others⟩, fires⟩

theorem type_verdict_ne_failed (f : String → Facts → Except EvalError Value) (facts : Facts)
    (items : List Item) : (verdict f facts items).type ≠ .failed := by
  rcases silent_or_fires f facts items with silent | ⟨before, item, after, _, rfl, silent, fires⟩
  · rw [verdict_of_silent silent]
    decide
  · rw [verdict_append silent fires]
    simp [Verdict.matched]

theorem mem_of_mem_reached {items : List Item} {item : Item} (h : item ∈ reached f facts items) :
    item ∈ items := List.mem_of_mem_take h

/-- The failures stand in the order of the items, each under the name of its item. -/
theorem names_of_failures_sublist (f : String → Facts → Except EvalError Value) (facts : Facts)
    (items : List Item) :
    ((items.filterMap (Item.failure? f facts)).map Prod.fst).Sublist (items.map Item.name) := by
  induction items with
  | nil => exact .slnil
  | cons item items ih =>
    rw [List.filterMap_cons, List.map_cons]
    cases h : item.failure? f facts with
    | none => exact ih.cons _
    | some entry =>
      obtain ⟨e, -, rfl⟩ := Item.failure?_eq_some.mp h
      exact ih.cons_cons _

end Lists

end Execution

/-- One record behind another. -/
def Diagnostics.append (d e : Diagnostics) : Diagnostics :=
  ⟨d.evaluated ++ e.evaluated, d.errors ++ e.errors⟩

namespace Execution

/-- Whether diagnostics are kept makes no difference to the result and to the memory. -/
theorem firstFiring_diagnostics (evaluator : Evaluator σ) (facts : Facts) (items : List Item)
    (d : Option Diagnostics) (memory : σ) :
    (firstFiring evaluator facts items none memory).1 =
        (firstFiring evaluator facts items d memory).1 ∧
      (firstFiring evaluator facts items none memory).2.2 =
        (firstFiring evaluator facts items d memory).2.2 := by
  induction items generalizing d memory with
  | nil => exact ⟨rfl, rfl⟩
  | cons item items ih =>
    simp only [firstFiring, Option.map_none]
    split
    · exact ⟨rfl, rfl⟩
    · exact ih _ _
    · exact ih _ _

theorem run_eq_runDetailed (evaluator : Evaluator σ) (facts : Facts) (items : List Item)
    (memory : σ) : run evaluator facts items memory =
      (runDetailed evaluator facts items memory).map Report.result id := by
  cases items with
  | nil => rfl
  | cons item items =>
    obtain ⟨hverdict, hmemory⟩ :=
      firstFiring_diagnostics evaluator facts (item :: items) (some {}) memory
    exact Prod.ext hverdict hmemory

end Execution

namespace Evaluator.Answers

open Execution

variable {evaluator : Evaluator σ} {Sound : σ → Prop} {memory : σ}
  (h : evaluator.Answers f Sound) (hm : Sound memory)
include h hm

/-- The verdict of a list, the record of its items behind what was recorded before, and the memory
that their sources lead to. -/
theorem firstFiring (facts : Facts) (items : List Item) (d : Option Diagnostics) :
    firstFiring evaluator facts items d memory =
      (verdict f facts items, d.map (·.append (diagnostics f facts items)),
        evaluator.afterAll facts (handed f facts items) memory) := by
  induction items generalizing memory d with
  | nil => cases d <;> simp [Execution.firstFiring, verdict, diagnostics, handed, reached,
      Diagnostics.append]
  | cons item items ih =>
    have hrest := ih (h.afterAll hm facts (item.handed f facts))
    rw [Execution.firstFiring, h.item hm]
    cases hanswer : item.answer f facts with
    | error e =>
      have silent : item.message? f facts = none := by
        simp [Item.message?, hanswer, Except.toOption]
      have failure : item.failure? f facts = some (item.name, e.message) := by
        simp [Item.failure?, hanswer]
      simp only [hrest, Option.map_map]
      simp [verdict, diagnostics, handed, reached, upToFirst_cons, afterAll_append, silent, failure,
        Function.comp_def, Diagnostics.append, Diagnostics.visit, Diagnostics.fail]
    | ok message? =>
      have failure : item.failure? f facts = none := by simp [Item.failure?, hanswer]
      cases message? with
      | some message =>
        have fires : item.message? f facts = some message := Item.message?_eq_some.mpr hanswer
        simp [verdict, diagnostics, handed, reached, upToFirst_cons, fires, failure,
          Diagnostics.append, Diagnostics.visit]
      | none =>
        have silent : item.message? f facts = none := Item.message?_eq_none.mpr (.inl hanswer)
        simp only [hrest, Option.map_map]
        simp [verdict, diagnostics, handed, reached, upToFirst_cons, afterAll_append, silent,
          failure, Function.comp_def, Diagnostics.append, Diagnostics.visit]

theorem run (facts : Facts) (items : List Item) : run evaluator facts items memory =
    (if items = [] then .noRules else verdict f facts items,
      evaluator.afterAll facts (handed f facts items) memory) := by
  unfold Execution.run Execution.firstMatch
  cases items with
  | nil => rfl
  | cons item items => simp [h.firstFiring hm]

theorem runDetailed (facts : Facts) (items : List Item) :
    runDetailed evaluator facts items memory =
      (.of (if items = [] then .noRules else verdict f facts items) (diagnostics f facts items),
        evaluator.afterAll facts (handed f facts items) memory) := by
  unfold Execution.runDetailed Execution.firstMatch
  cases items with
  | nil => rfl
  | cons item items => simp [h.firstFiring hm, Diagnostics.append]

end Evaluator.Answers

/-- An execution under a recorded function, in one equation. -/
theorem run_recording (f : String → Facts → Except EvalError Value) (facts : Facts)
    (items : List Item) (memory : σ) (seen : List String) :
    Execution.run (.recording (.ofFunction f)) facts items (memory, seen) =
      (if items = [] then .noRules else Execution.verdict f facts items, memory,
        seen ++ Execution.handed f facts items) := by
  have answers : (Evaluator.ofFunction f : Evaluator σ).recording.Answers f fun _ => True :=
    Evaluator.answers_ofFunction.recording
  simp [answers.run trivial]

/-- An execution reports that there are no items, or the first item that fires, or that none does.
It hands over the sources of the items up to that one and no others, and it does so whether the
items come as a mixed list, as rules, as groups or from a category. -/
theorem run_first_match (f : String → Facts → Except EvalError Value) (facts : Facts)
    (items : List Item) (memory : σ) (seen : List String) :
    let traced := Evaluator.recording (Evaluator.ofFunction f)
    let outcome := Execution.run traced facts items (memory, seen)
    ((items = [] ∧ outcome = (.noRules, memory, seen)) ∨
      (∃ before item after message, items = before ++ item :: after ∧
        (∀ i ∈ before, i.Silent f facts) ∧ item.answer f facts = .ok (some message) ∧
        outcome = (.matched item.name message, memory,
          seen ++ (before ++ [item]).flatMap (Item.handed f facts))) ∨
      (items ≠ [] ∧ (∀ i ∈ items, i.Silent f facts) ∧
        outcome = (.noMatch, memory, seen ++ items.flatMap (Item.handed f facts)))) ∧
    outcome.1.type ≠ .failed ∧
    (∀ rules, items = rules.map .rule →
      Execution.runRules traced facts rules (memory, seen) = outcome) ∧
    (∀ groups, items = groups.map .group →
      Execution.runGroups traced facts groups (memory, seen) = outcome) ∧
    (∀ registry category, items = registry.itemsIn category →
      Execution.runCategory traced facts registry category (memory, seen) = outcome) := by
  intro traced outcome
  have houtcome : outcome = _ := run_recording f facts items memory seen
  refine ⟨?_, ?_, ?_, ?_, ?_⟩
  · by_cases hitems : items = []
    · exact .inl ⟨hitems, by simp [houtcome, hitems, Execution.handed, Execution.reached]⟩
    right
    rcases Execution.silent_or_fires f facts items with
      silent | ⟨before, item, after, message, hsplit, silent, fires⟩
    · refine .inr ⟨hitems, silent, ?_⟩
      rw [houtcome, if_neg hitems, Execution.verdict_of_silent silent, Execution.handed,
        Execution.reached_of_silent silent]
    · refine .inl ⟨before, item, after, message, hsplit, silent, fires, ?_⟩
      rw [houtcome, if_neg hitems, hsplit, Execution.verdict_append silent fires, Execution.handed,
        Execution.reached_append silent fires]
  · rw [houtcome]
    dsimp only
    split
    · decide
    · exact Execution.type_verdict_ne_failed f facts items
  · rintro rules rfl
    rfl
  · rintro groups rfl
    rfl
  · rintro registry category rfl
    rfl

namespace Execution

/-- What is named and what failed, also of no items at all. -/
theorem runDetailed_ofFunction (f : String → Facts → Except EvalError Value) (facts : Facts)
    (items : List Item) (memory : σ) :
    (runDetailed (.ofFunction f) facts items memory).1.evaluated =
        (reached f facts items).map Item.name ∧
      (runDetailed (.ofFunction f) facts items memory).1.errors =
        (reached f facts items).filterMap (Item.failure? f facts) := by
  have answers : Evaluator.Answers (.ofFunction f : Evaluator σ) f fun _ => True :=
    Evaluator.answers_ofFunction
  rw [answers.runDetailed trivial]
  exact ⟨rfl, rfl⟩

/-- A detailed execution has the result of the plain one. It names the items up to the first that
fires, or all of them if none does, and lists the failures of those that did not fire. Each of these
is the failure of a rule, and in their order their names are among those of the items. -/
theorem runDetailed_reports (f : String → Facts → Except EvalError Value) (facts : Facts)
    (items : List Item) (memory : σ) :
    let report := (runDetailed (.ofFunction f) facts items memory).1
    (∀ (τ : Type) (evaluator : Evaluator τ) (memory : τ),
      run evaluator facts items memory =
        (runDetailed evaluator facts items memory).map Report.result id) ∧
    ((∃ before item after message, items = before ++ item :: after ∧
        (∀ i ∈ before, i.Silent f facts) ∧ item.answer f facts = .ok (some message) ∧
        report.evaluated = (before ++ [item]).map Item.name ∧
        report.errors = before.filterMap (Item.failure? f facts)) ∨
      ((∀ i ∈ items, i.Silent f facts) ∧ report.evaluated = items.map Item.name ∧
        report.errors = items.filterMap (Item.failure? f facts))) ∧
    (∀ entry ∈ report.errors, ∃ rule e, .rule rule ∈ items ∧
      f rule.condition facts = .error e ∧ entry = (rule.name, e.message)) ∧
    (report.errors.map Prod.fst).Sublist report.evaluated := by
  intro report
  obtain ⟨hevaluated, herrors⟩ := runDetailed_ofFunction f facts items memory
  refine ⟨fun _ evaluator => run_eq_runDetailed evaluator facts items, ?_, ?_, ?_⟩
  · rw [hevaluated, herrors]
    rcases silent_or_fires f facts items with
      silent | ⟨before, item, after, message, rfl, silent, fires⟩
    · rw [reached_of_silent silent]
      exact .inr ⟨silent, rfl, rfl⟩
    · rw [reached_append silent fires, List.filterMap_append,
        List.filterMap_cons_none (Item.failure?_of_answer fires)]
      exact .inl ⟨before, item, after, message, rfl, silent, fires, rfl, List.append_nil _⟩
  · intro entry hentry
    rw [herrors] at hentry
    obtain ⟨item, hitem, hfailure⟩ := List.mem_filterMap.mp hentry
    obtain ⟨e, hanswer, rfl⟩ := Item.failure?_eq_some.mp hfailure
    obtain ⟨rule, rfl, hcondition⟩ := Item.answer_eq_error.mp hanswer
    exact ⟨rule, e, mem_of_mem_reached hitem, hcondition, rfl⟩
  · rw [hevaluated, herrors]
    exact names_of_failures_sublist f facts _

end Execution

end Rulebook
