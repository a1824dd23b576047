import Mathlib.Data.List.Induction
import Rulebook.Proofs.Builder
import Rulebook.Proofs.Evaluation.Traces
import Rulebook.Proofs.KeyMap

/-!
# What a group comes to

The members of a group are the rules last added at each number, in ascending number. Evaluation
goes through them as far as the operator needs, and its message, if the group triggers, is made of
the messages of all members.
-/
namespace Rulebook

open Condition

namespace RuleGroup

/-- Add rules under their numbers, one after the other. -/
def addAll (group : RuleGroup) (additions : List (Rule × Int32)) : RuleGroup :=
  additions.foldl (fun group (rule, number) => group.addRule rule number) group

/-- Nothing but the members changes. -/
theorem addAll_eq (group : RuleGroup) (additions : List (Rule × Int32)) :
    group.addAll additions = { group with members := (group.addAll additions).members } := by
  induction additions generalizing group with
  | nil => rfl
  | cons a additions ih => exact ih (group.addRule a.1 a.2)

/-- The rules added to an empty group are a map by their numbers. -/
theorem addAll_members {group : RuleGroup} (empty : group.members = .empty)
    (additions : List (Rule × Int32)) :
    (group.addAll additions).members.entries = Entries.ofList (additions.map Prod.swap) := by
  induction additions using List.reverseRecOn with
  | nil => exact congrArg KeyMap.entries empty
  | append_singleton additions a ih =>
    have hadd : (group.addAll (additions ++ [a])).members.entries =
        Entries.insert a.2 a.1 (group.addAll additions).members.entries := by
      simp [addAll, addRule, KeyMap.insert]
    rw [hadd, ih, List.map_append, List.map_singleton, Entries.ofList_concat]
    rfl

/-- The member at a number is the rule last added there. -/
theorem mem_addAll {group : RuleGroup} (empty : group.members = .empty)
    (additions : List (Rule × Int32)) (rule : Rule) (number : Int32) :
    (number, rule) ∈ (group.addAll additions).members.entries ↔
      (additions.filter (·.2 = number)).getLast? = some (rule, number) := by
  have hlast : ((additions.map Prod.swap).filter (·.1 = number)).getLast? =
      ((additions.filter (·.2 = number)).getLast?).map Prod.swap := by
    rw [List.filter_map, List.getLast?_map]
    rfl
  rw [addAll_members empty, Entries.mem_ofList, hlast, Option.map_eq_some_iff]
  constructor
  · rintro ⟨⟨rule', number'⟩, hget, hswap⟩
    obtain ⟨rfl, rfl⟩ := Prod.mk.inj hswap
    exact hget
  · exact fun hget => ⟨_, hget, rfl⟩

/-- A lone member speaks for its group. -/
theorem composedMessage_single {group : RuleGroup} {rule : Rule} (hrules : group.rules = [rule]) :
    group.composedMessage = rule.message := by simp [composedMessage, hrules]

/-- Several members are joined by the operator, in their order and behind the name. -/
theorem composedMessage_many {group : RuleGroup} (hlength : 2 ≤ group.rules.length) :
    group.composedMessage = group.name ++ ": " ++
      String.intercalate (" " ++ group.operator.word ++ " ") (group.rules.map (·.message)) := by
  unfold composedMessage
  split
  · next hrules => simp [hrules] at hlength
  · rfl

theorem members_of_build {builder : GroupBuilder} {group : RuleGroup}
    (built : builder.build = .ok group) : group.members = .empty := by
  obtain ⟨_, _, -, -, rfl⟩ := GroupBuilder.of_build_eq_ok built
  rfl

/-- A group to which rules were added since it was built has the last rule of every number, in
ascending number. An AND group triggers if it has members and all are true, and evaluates up to the
first that is not; an OR group triggers if some member is true, and evaluates up to the first that
is. The message is there if the group triggers, and is made of all members. -/
theorem evaluate_addAll {builder : GroupBuilder} {fresh : RuleGroup}
    (built : builder.build = .ok fresh) (additions : List (Rule × Int32))
    (f : String → Facts → Except EvalError Value) (facts : Facts) {σ : Type} (memory : σ)
    (seen : List String) :
    let group := fresh.addAll additions
    let outcome := group.evaluate (.recording (.ofFunction f)) facts (memory, seen)
    group = { fresh with members := group.members } ∧ Entries.Ascending group.members.entries ∧
    (∀ rule number, (number, rule) ∈ group.members.entries ↔
      (additions.filter (·.2 = number)).getLast? = some (rule, number)) ∧
    (group.rules = [] → outcome = (⟨false, none⟩, memory, seen)) ∧
    (group.operator = .all → group.rules ≠ [] →
      (outcome.1.triggered = true ↔
        ∀ rule ∈ group.rules, f rule.condition facts = .ok (.bool true)) ∧
      outcome.2 = (memory, seen ++
        (upToFirst (fun rule => !rule.holds f facts) group.rules).map (·.condition))) ∧
    (group.operator = .any →
      (outcome.1.triggered = true ↔
        ∃ rule ∈ group.rules, f rule.condition facts = .ok (.bool true)) ∧
      outcome.2 = (memory, seen ++
        (upToFirst (Rule.holds f facts) group.rules).map (·.condition))) ∧
    outcome.1.message.isSome = outcome.1.triggered ∧
    (outcome.1.triggered = true → ∀ rule, group.rules = [rule] →
      outcome.1.message = some rule.message) ∧
    (outcome.1.triggered = true → 2 ≤ group.rules.length →
      outcome.1.message = some (group.name ++ ": " ++
        String.intercalate (" " ++ group.operator.word ++ " ")
          (group.rules.map (·.message)))) := by
  intro group outcome
  have empty := members_of_build built
  have answers : (Evaluator.ofFunction f : Evaluator σ).recording.Answers f fun _ => True :=
    Evaluator.answers_ofFunction.recording
  have houtcome : outcome = (⟨group.triggers f facts,
      if group.triggers f facts then some group.composedMessage else none⟩, memory,
      seen ++ (group.reached f facts).map (·.condition)) := by
    simp only [outcome, answers.group trivial, Evaluator.afterAll_recording,
      Evaluator.afterAll_ofFunction]
  rw [houtcome]
  refine ⟨addAll_eq fresh additions, group.members.ascending, mem_addAll empty additions, ?_,
    ?_, ?_, ?_, ?_, ?_⟩
  · intro hrules
    simp [triggers_of_empty hrules, reached, hrules]
  · intro hoperator hne
    exact ⟨triggers_all_iff hoperator hne, by rw [reached_all hoperator]⟩
  · intro hoperator
    exact ⟨triggers_any_iff hoperator, by rw [reached_any hoperator]⟩
  · cases group.triggers f facts <;> rfl
  · intro triggered rule hrules
    rw [if_pos triggered, composedMessage_single hrules]
  · intro triggered hlength
    rw [if_pos triggered, composedMessage_many hlength]

/-- A rule under 3 is replaced before the group is evaluated. Behind a number and a failure the
member under 7 is true, so the group triggers after three conditions and names all three. -/
theorem evaluate_addAll_replaced :
    let rule (source : String) : Rule := ⟨source, [], source, source, source, source, 100⟩
    let builder : GroupBuilder :=
      ⟨{ id := "g", name := some "n", description := some "d" }, .any⟩
    let fresh : RuleGroup := ⟨"g", [.named "default" 100], "n", "d", 100, .any, .empty⟩
    let group := fresh.addAll
      [(rule "true", 7), (rule "false", 3), (rule "number", -2), (rule "failure", 3)]
    let f (source : String) (_ : Facts) : Except EvalError Value :=
      if source = "number" then .ok (.int 5)
      else if source = "failure" then .error (.unknownVariable "x")
      else .ok (.bool true)
    let outcome := group.evaluate (.recording (.ofFunction f)) .empty ((), [])
    builder.build = .ok fresh ∧
    outcome.1 = ⟨true, some "n: number OR failure OR true"⟩ ∧
    outcome.2 = ((), ["number", "failure", "true"]) := by
  intro rule builder fresh group f outcome
  have built : builder.build = .ok fresh := by decide +kernel
  have hrules : group.rules = [rule "number", rule "failure", rule "true"] := by decide +kernel
  obtain ⟨-, -, -, -, -, hany, -, -, hmany⟩ := evaluate_addAll built
    [(rule "true", 7), (rule "false", 3), (rule "number", -2), (rule "failure", 3)] f .empty () []
  obtain ⟨htriggered, htrace⟩ := hany rfl
  have triggered : outcome.1.triggered = true :=
    htriggered.mpr ⟨rule "true", by simp [group, hrules], by simp [f, rule]⟩
  have message := hmany triggered (by simp [group, hrules])
  have hreached : (upToFirst (Rule.holds f .empty) group.rules).map (·.condition) =
      ["number", "failure", "true"] := by
    rw [hrules]
    rfl
  refine ⟨built, ?_, htrace.trans (by rw [hreached]; rfl)⟩
  show GroupEvaluation.mk outcome.1.triggered outcome.1.message = _
  rw [triggered, message, hrules]
  rfl

end RuleGroup

end Rulebook
