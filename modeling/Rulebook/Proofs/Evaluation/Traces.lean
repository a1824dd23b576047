import Mathlib.Data.List.Basic
import Rulebook.Proofs.Evaluation.Connectives
import Rulebook.Rule

/-!
# What evaluation asks of an evaluator

An evaluator with a memory answers like a function if it does so from every memory it can come to.
Rules, groups and items then depend on the function only, and the memory afterwards is the one that
certain sources lead to. These are the sources handed over: one for a rule, and for a group those of
the members up to the one that decides it.
-/
namespace Rulebook

open Condition

/-- The elements up to and including the first that passes, and all of them if none does. -/
def upToFirst {α : Type} (p : α → Bool) (l : List α) : List α := l.take (l.findIdx p + 1)

section UpToFirst

variable {α : Type} {p : α → Bool} {a : α} {l before : List α}

@[simp] theorem upToFirst_nil : upToFirst p [] = [] := rfl

theorem upToFirst_cons : upToFirst p (a :: l) = a :: if p a then [] else upToFirst p l := by
  cases h : p a <;> simp [upToFirst, List.findIdx_cons, h]

theorem upToFirst_of_none (h : ∀ b ∈ l, p b = false) : upToFirst p l = l := by
  induction l with
  | nil => rfl
  | cons b l ih =>
    rw [upToFirst_cons, h b (by simp), ih fun c hc => h c (by simp [hc])]
    rfl

theorem upToFirst_append (h : ∀ b ∈ before, p b = false) (ha : p a = true) :
    upToFirst p (before ++ a :: l) = before ++ [a] := by
  induction before with
  | nil => simp [upToFirst_cons, ha]
  | cons b before ih =>
    rw [List.cons_append, upToFirst_cons, h b (by simp), ih fun c hc => h c (by simp [hc])]
    rfl

end UpToFirst

namespace Evaluator

variable {σ : Type}

/-- The memory after some sources were evaluated. -/
def afterAll (evaluator : Evaluator σ) (facts : Facts) (sources : List String) (memory : σ) : σ :=
  sources.foldl (fun memory source => (evaluator source facts memory).2) memory

section AfterAll

variable (evaluator : Evaluator σ) (facts : Facts) (memory : σ)

@[simp] theorem afterAll_nil : evaluator.afterAll facts [] memory = memory := rfl

@[simp] theorem afterAll_cons (source : String) (sources : List String) :
    evaluator.afterAll facts (source :: sources) memory =
      evaluator.afterAll facts sources (evaluator source facts memory).2 := rfl

theorem afterAll_append (sources sources' : List String) :
    evaluator.afterAll facts (sources ++ sources') memory =
      evaluator.afterAll facts sources' (evaluator.afterAll facts sources memory) :=
  List.foldl_append

end AfterAll

/-- From every sound memory the evaluator answers like the function, and goes to a sound memory. -/
structure Answers (evaluator : Evaluator σ) (f : String → Facts → Except EvalError Value)
    (Sound : σ → Prop) : Prop where
  result : ∀ {memory : σ}, Sound memory → ∀ source facts,
    (evaluator source facts memory).1 = f source facts
  sound : ∀ {memory : σ}, Sound memory → ∀ source facts, Sound (evaluator source facts memory).2

variable {f : String → Facts → Except EvalError Value}

theorem answers_ofFunction : Answers (ofFunction f : Evaluator σ) f fun _ => True :=
  ⟨fun _ _ _ => rfl, fun _ _ _ => trivial⟩

theorem answers_plain : Answers (plain : Evaluator σ) Condition.evaluate fun _ => True :=
  answers_ofFunction

@[simp] theorem afterAll_ofFunction (facts : Facts) (sources : List String) (memory : σ) :
    (ofFunction f).afterAll facts sources memory = memory := by
  induction sources with
  | nil => rfl
  | cons source sources ih => simpa using ih

/-- A recording of the evaluator keeps what was handed over behind what was kept before. -/
@[simp] theorem afterAll_recording (evaluator : Evaluator σ) (facts : Facts)
    (sources : List String) (memory : σ) (seen : List String) :
    evaluator.recording.afterAll facts sources (memory, seen) =
      (evaluator.afterAll facts sources memory, seen ++ sources) := by
  induction sources generalizing memory seen with
  | nil => simp
  | cons source sources ih => simp [ih]

namespace Answers

variable {evaluator : Evaluator σ} {Sound : σ → Prop} {memory : σ}

theorem recording (h : evaluator.Answers f Sound) :
    evaluator.recording.Answers f fun memory => Sound memory.1 :=
  ⟨fun hm source facts => h.result hm source facts, fun hm source facts => h.sound hm source facts⟩

theorem afterAll (h : evaluator.Answers f Sound) (hm : Sound memory) (facts : Facts)
    (sources : List String) : Sound (evaluator.afterAll facts sources memory) := by
  induction sources generalizing memory with
  | nil => exact hm
  | cons source sources ih => exact ih (h.sound hm source facts)

end Answers

end Evaluator

variable {σ : Type} {f : String → Facts → Except EvalError Value} {facts : Facts}

theorem firesOn_eq_true {v : Value} : firesOn v = true ↔ v = .bool true := by
  cases v <;> simp [firesOn, Value.asBool?]

/-- Whether the condition is true; a failure or a value that is not boolean is not. -/
def Rule.holds (f : String → Facts → Except EvalError Value) (facts : Facts) (rule : Rule) : Bool :=
  match f rule.condition facts with
  | .ok v => firesOn v
  | .error _ => false

theorem Rule.holds_iff {rule : Rule} :
    rule.holds f facts = true ↔ f rule.condition facts = .ok (.bool true) := by
  unfold Rule.holds
  cases f rule.condition facts with
  | ok v => simp [firesOn_eq_true]
  | error e => simp

namespace RuleGroup

/-- Whether the member settles what the group comes to, once it is reached. -/
def decidedBy (f : String → Facts → Except EvalError Value) (facts : Facts) (group : RuleGroup)
    (rule : Rule) : Bool :=
  match group.operator with
  | .all => !rule.holds f facts
  | .any => rule.holds f facts

/-- The members that are evaluated. -/
def reached (f : String → Facts → Except EvalError Value) (facts : Facts) (group : RuleGroup) :
    List Rule := upToFirst (group.decidedBy f facts) group.rules

/-- Whether there are members and those that the operator asks for hold. -/
def triggers (f : String → Facts → Except EvalError Value) (facts : Facts) (group : RuleGroup) :
    Bool :=
  !group.rules.isEmpty && match group.operator with
    | .all => group.rules.all (Rule.holds f facts)
    | .any => group.rules.any (Rule.holds f facts)

variable {group : RuleGroup}

theorem triggers_of_empty (hrules : group.rules = []) : group.triggers f facts = false := by
  simp [triggers, hrules]

theorem triggers_all_iff (hoperator : group.operator = .all) (hne : group.rules ≠ []) :
    group.triggers f facts = true ↔
      ∀ rule ∈ group.rules, f rule.condition facts = .ok (.bool true) := by
  simp [triggers, hoperator, hne, Rule.holds_iff]

theorem triggers_any_iff (hoperator : group.operator = .any) :
    group.triggers f facts = true ↔
      ∃ rule ∈ group.rules, f rule.condition facts = .ok (.bool true) := by
  simp only [triggers, hoperator, Bool.and_eq_true, List.any_eq_true, Rule.holds_iff]
  refine and_iff_right_of_imp fun ⟨rule, hrule, _⟩ => ?_
  cases hrules : group.rules with
  | nil => simp [hrules] at hrule
  | cons => rfl

/-- An AND group is evaluated up to the first member that is not true. -/
theorem reached_all (hoperator : group.operator = .all) :
    group.reached f facts = upToFirst (fun rule => !rule.holds f facts) group.rules := by
  have hdecided : group.decidedBy f facts = fun rule => !rule.holds f facts := by
    funext rule
    simp [decidedBy, hoperator]
  rw [reached, hdecided]

/-- An OR group is evaluated up to the first member that is true. -/
theorem reached_any (hoperator : group.operator = .any) :
    group.reached f facts = upToFirst (Rule.holds f facts) group.rules := by
  have hdecided : group.decidedBy f facts = Rule.holds f facts := by
    funext rule
    simp [decidedBy, hoperator]
  rw [reached, hdecided]

end RuleGroup

namespace Item

/-- What the item reports where every source is answered by the function. -/
def answer (f : String → Facts → Except EvalError Value) (facts : Facts) (item : Item) :
    Except EvalError (Option String) :=
  (item.evaluate (.ofFunction f) facts ()).1

/-- The sources that the item hands over. -/
def handed (f : String → Facts → Except EvalError Value) (facts : Facts) : Item → List String
  | rule r => [r.condition]
  | group g => (g.reached f facts).map (·.condition)

end Item

namespace Evaluator.Answers

variable {evaluator : Evaluator σ} {Sound : σ → Prop} {memory : σ}
  (h : evaluator.Answers f Sound) (hm : Sound memory)
include h hm

theorem rule (rule : Rule) (facts : Facts) : rule.evaluate evaluator facts memory =
    ((f rule.condition facts).map firesOn, evaluator.afterAll facts [rule.condition] memory) := by
  have hanswer := h.result hm rule.condition facts
  unfold Rule.evaluate Evaluator.condition
  cases heq : evaluator rule.condition facts memory with
  | mk answer memory' =>
    obtain rfl : answer = f rule.condition facts := by rw [← hanswer, heq]
    cases f rule.condition facts <;> simp [Except.map, heq]

theorem allFire (facts : Facts) (rules : List Rule) :
    RuleGroup.allFire evaluator facts rules memory =
      (rules.all (Rule.holds f facts), evaluator.afterAll facts
        ((upToFirst (fun rule => !rule.holds f facts) rules).map (·.condition)) memory) := by
  induction rules generalizing memory with
  | nil => rfl
  | cons rule rules ih =>
    rw [RuleGroup.allFire, h.rule hm, upToFirst_cons]
    have hrest := ih (h.afterAll hm facts [rule.condition])
    cases hf : f rule.condition facts with
    | error e => simp [Except.map, Rule.holds, hf]
    | ok v => cases hv : firesOn v <;> simp_all [Except.map, Rule.holds]

theorem anyFires (facts : Facts) (rules : List Rule) :
    RuleGroup.anyFires evaluator facts rules memory =
      (rules.any (Rule.holds f facts), evaluator.afterAll facts
        ((upToFirst (Rule.holds f facts) rules).map (·.condition)) memory) := by
  induction rules generalizing memory with
  | nil => rfl
  | cons rule rules ih =>
    rw [RuleGroup.anyFires, h.rule hm, upToFirst_cons]
    have hrest := ih (h.afterAll hm facts [rule.condition])
    cases hf : f rule.condition facts with
    | error e => simp_all [Except.map, Rule.holds]
    | ok v => cases hv : firesOn v <;> simp_all [Except.map, Rule.holds]

theorem fires (group : RuleGroup) (facts : Facts) : group.fires evaluator facts memory =
    (group.triggers f facts,
      evaluator.afterAll facts ((group.reached f facts).map (·.condition)) memory) := by
  unfold RuleGroup.fires
  cases hrules : group.rules with
  | nil => simp [RuleGroup.triggers, RuleGroup.reached, hrules]
  | cons rule rules =>
    cases hoperator : group.operator with
    | all =>
      rw [RuleGroup.reached_all hoperator, RuleGroup.triggers, hoperator, hrules]
      exact h.allFire hm facts (rule :: rules)
    | any =>
      rw [RuleGroup.reached_any hoperator, RuleGroup.triggers, hoperator, hrules]
      exact h.anyFires hm facts (rule :: rules)

/-- A group triggers if its members decide so, and then has a message. -/
theorem group (group : RuleGroup) (facts : Facts) : group.evaluate evaluator facts memory =
    (⟨group.triggers f facts,
        if group.triggers f facts then some group.composedMessage else none⟩,
      evaluator.afterAll facts ((group.reached f facts).map (·.condition)) memory) := by
  unfold RuleGroup.evaluate
  rw [h.fires hm]
  cases group.triggers f facts <;> rfl

end Evaluator.Answers

namespace Item

variable {item : Item}

theorem answer_rule (rule : Rule) : (Item.rule rule).answer f facts =
    (f rule.condition facts).map fun v => if firesOn v then some rule.message else none := by
  have hpure : Evaluator.Answers (.ofFunction f : Evaluator Unit) f fun _ => True :=
    Evaluator.answers_ofFunction
  simp only [answer, evaluate, hpure.rule trivial]
  cases f rule.condition facts with
  | error e => rfl
  | ok v => cases hv : firesOn v <;> simp [Except.map, hv]

theorem answer_group (group : RuleGroup) : (Item.group group).answer f facts =
    .ok (if group.triggers f facts then some group.composedMessage else none) := by
  have hpure : Evaluator.Answers (.ofFunction f : Evaluator Unit) f fun _ => True :=
    Evaluator.answers_ofFunction
  simp only [answer, evaluate, hpure.group trivial]

/-- A rule fires if its condition is true, a group if its members decide so. -/
theorem answer_eq_some {message : String} : item.answer f facts = .ok (some message) ↔
    (∃ rule, item = .rule rule ∧ rule.holds f facts ∧ rule.message = message) ∨
      ∃ group, item = .group group ∧ group.triggers f facts ∧ group.composedMessage = message := by
  cases item with
  | rule rule =>
    rw [answer_rule]
    cases hf : f rule.condition facts with
    | error e => simp [Except.map, Rule.holds, hf]
    | ok v => simp [Except.map, Rule.holds, hf]
  | group group => simp [answer_group]

/-- A rule does not fire if its condition has a value that is not true, a group if its members
decide against it. -/
theorem answer_eq_none : item.answer f facts = .ok none ↔
    (∃ rule v, item = .rule rule ∧ f rule.condition facts = .ok v ∧ rule.holds f facts = false) ∨
      ∃ group, item = .group group ∧ group.triggers f facts = false := by
  cases item with
  | rule rule =>
    rw [answer_rule]
    cases hf : f rule.condition facts with
    | error e => simp [Except.map, hf]
    | ok v => simp [Except.map, Rule.holds, hf]
  | group group => simp [answer_group]

/-- Only a rule fails, and it fails as its condition does. -/
theorem answer_eq_error {e : EvalError} : item.answer f facts = .error e ↔
    ∃ rule, item = .rule rule ∧ f rule.condition facts = .error e := by
  cases item with
  | rule rule =>
    rw [answer_rule]
    cases hf : f rule.condition facts <;> simp [Except.map, hf]
  | group group => simp [answer_group]

end Item

/-- An item answers as it does under the function. -/
theorem Evaluator.Answers.item {evaluator : Evaluator σ} {Sound : σ → Prop} {memory : σ}
    (h : evaluator.Answers f Sound) (hm : Sound memory) (item : Item) (facts : Facts) :
    item.evaluate evaluator facts memory =
      (item.answer f facts, evaluator.afterAll facts (item.handed f facts) memory) := by
  cases item with
  | rule r =>
    rw [Item.evaluate, h.rule hm, Item.answer_rule, Item.handed]
    cases hf : f r.condition facts with
    | error e => rfl
    | ok v => cases hv : firesOn v <;> simp [Except.map, hv]
  | group g => simp only [Item.evaluate, h.group hm, Item.answer_group, Item.handed]

end Rulebook
