import Rulebook.Proofs.Builder
import Rulebook.Proofs.Evaluation.Connectives
import Rulebook.Proofs.Evaluation.Traces
import Rulebook.Proofs.Grammar.Completeness
import Rulebook.Proofs.Grammar.Extension
import Rulebook.Registry

/-!
# What a combined rule means

Conditions are combined as texts. Parentheses keep each one apart from its neighbours, so the
combined text is read as the trees of its parts joined from the left. Evaluating that tree is then
compared with evaluating a group of the same rules: the two differ in what they make of failures
and of values that are not boolean.
-/
namespace Rulebook
open Condition Condition.Grammar

namespace GroupOperator

/-- The node that combines two trees. -/
def join : GroupOperator → Expr → Expr → Expr
  | all => .and
  | any => .or

/-- The level of the grammar whose operators combine. -/
def level : GroupOperator → Level
  | all => .conjunction
  | any => .disjunction

/-- The level of the operands. -/
def operands : GroupOperator → Level
  | all => .equality
  | any => .conjunction

theorem tighter_level (operator : GroupOperator) :
    operator.level.tighter = some operator.operands := by
  cases operator <;> rfl

theorem joins_joiner (operator : GroupOperator) (t : List Char) :
    ∃ m, Blanks (operator.joiner ++ t) m ∧ Joins operator.level m operator.join (' ' :: t) := by
  cases operator with
  | all => exact ⟨'&' :: '&' :: ' ' :: t, blanks_space _, .ampersands⟩
  | any => exact ⟨'|' :: '|' :: ' ' :: t, blanks_space _, .bars⟩

end GroupOperator

/-- Conditions between parentheses, each behind a joiner. -/
def appendedConditions (operator : GroupOperator) (sources : List String) : List Char :=
  sources.flatMap fun source => operator.joiner ++ '(' :: (source.toList ++ [')'])

theorem appendedConditions_cons (operator : GroupOperator) (source : String)
    (sources : List String) : appendedConditions operator (source :: sources) =
      operator.joiner ++ '(' :: (source.toList ++ ')' :: appendedConditions operator sources) := by
  simp [appendedConditions]

theorem combinedCondition_cons (operator : GroupOperator) (source : String)
    (sources : List String) : combinedCondition operator (source :: sources) =
      '(' :: (source.toList ++ ')' :: appendedConditions operator sources) := by
  induction sources generalizing source with
  | nil => rfl
  | cons next sources ih =>
    rw [combinedCondition, ih, appendedConditions_cons]

/-- Appended conditions are joined to what stands before them, one after the other. -/
theorem derives_appended {operator : GroupOperator} {sources : List String} {es : List Expr}
    (parts : List.Forall₂ Describes sources es) {s : List Char} {left : Expr}
    (front : Derives operator.level s left (appendedConditions operator sources)) :
    Derives operator.level s (es.foldl operator.join left) [] := by
  induction parts generalizing left with
  | nil => exact front
  | @cons source e sources es part _ ih =>
    rw [appendedConditions_cons] at front
    obtain ⟨m, gap, op⟩ := operator.joins_joiner
      ('(' :: (source.toList ++ ')' :: appendedConditions operator sources))
    have second : Derives operator.operands _ e (appendedConditions operator sources) :=
      (derives_parenthesized part (blanks_space _)).loosen operator.operands.rank_le_primary
    exact ih (.joined operator.tighter_level front gap op second rfl)

/-- The combined text is a condition for the trees of its parts joined from the left. -/
theorem describes_combined (operator : GroupOperator) {source : String} {sources : List String}
    {e : Expr} {es : List Expr} (first : Describes source e)
    (others : List.Forall₂ Describes sources es) :
    Describes (String.ofList (combinedCondition operator (source :: sources)))
      (es.foldl operator.join e) := by
  have front : Derives operator.level
      (combinedCondition operator (source :: sources)) e (appendedConditions operator sources) := by
    rw [combinedCondition_cons]
    exact (derives_parenthesized first (Blanks.refl _)).loosen operator.level.rank_le_primary
  refine ⟨[], ?_, Blanks.refl _⟩
  rw [String.toList_ofList]
  exact (derives_appended others front).loosen (Nat.zero_le _)

section Groups

variable {σ : Type} {facts : Facts}

theorem map_firesOn_eq_ok {result : Except EvalError Value} :
    result.map firesOn = .ok true ↔ result = .ok (.bool true) := by
  simp [map_eq_ok, firesOn_eq_true]

/-- The plain evaluator leaves its memory alone. -/
theorem evaluate_plain (rule : Rule) (facts : Facts) (memory : σ) :
    rule.evaluate .plain facts memory =
      ((Condition.evaluate rule.condition facts).map firesOn, memory) := by
  rw [Evaluator.answers_plain.rule trivial, Evaluator.plain, Evaluator.afterAll_ofFunction]

/-- The conditions that the operator asks for are true. -/
def Decided (facts : Facts) (rules : List Rule) : GroupOperator → Prop
  | .all => ∀ rule ∈ rules, Condition.evaluate rule.condition facts = .ok (.bool true)
  | .any => ∃ rule ∈ rules, Condition.evaluate rule.condition facts = .ok (.bool true)

theorem decided_all_cons {rule : Rule} {rules : List Rule} :
    Decided facts (rule :: rules) .all ↔
      Condition.evaluate rule.condition facts = .ok (.bool true) ∧ Decided facts rules .all :=
  List.forall_mem_cons

theorem decided_any_cons {rule : Rule} {rules : List Rule} :
    Decided facts (rule :: rules) .any ↔
      Condition.evaluate rule.condition facts = .ok (.bool true) ∨ Decided facts rules .any :=
  List.exists_mem_cons_iff _ _ _

/-- Whether a group that is not empty triggers is for its members to decide. -/
theorem triggered_plain {group : RuleGroup} (hne : group.rules ≠ []) (facts : Facts)
    (memory : σ) : (group.evaluate .plain facts memory).1.triggered = true ↔
      Decided facts group.rules group.operator := by
  rw [Evaluator.answers_plain.group trivial]
  cases hoperator : group.operator with
  | all => exact RuleGroup.triggers_all_iff hoperator hne
  | any => exact RuleGroup.triggers_any_iff hoperator

end Groups

/-- The trees of the conditions of some rules. -/
abbrev Parsed (rules : List Rule) (es : List Expr) : Prop :=
  List.Forall₂ (fun rule e => parse rule.condition = .ok e) rules es

theorem evaluate_of_parse {source : String} {e : Expr} (h : parse source = .ok e) (facts : Facts) :
    Condition.evaluate source facts = e.eval facts := by
  simp [Condition.evaluate, h]

theorem decided_all_iff {facts : Facts} {rules : List Rule} {es : List Expr}
    (parses : Parsed rules es) :
    Decided facts rules .all ↔ ∀ e ∈ es, e.eval facts = .ok (.bool true) := by
  induction parses with
  | nil => simp [Decided]
  | cons h _ ih => rw [decided_all_cons, List.forall_mem_cons, evaluate_of_parse h, ih]

theorem decided_any_iff {facts : Facts} {rules : List Rule} {es : List Expr}
    (parses : Parsed rules es) :
    Decided facts rules .any ↔ ∃ e ∈ es, e.eval facts = .ok (.bool true) := by
  induction parses with
  | nil => simp [Decided]
  | cons h _ ih => rw [decided_any_cons, List.exists_mem_cons_iff, evaluate_of_parse h, ih]

/-- The joined tree is true only if the members decide so, and under AND if they do. -/
theorem eval_joined {operator : GroupOperator} {facts : Facts} {rules : List Rule} {e : Expr}
    {es : List Expr} (parses : Parsed rules (e :: es)) :
    ((es.foldl operator.join e).eval facts = .ok (.bool true) → Decided facts rules operator) ∧
      (operator = .all → Decided facts rules operator →
        (es.foldl operator.join e).eval facts = .ok (.bool true)) := by
  cases operator with
  | all =>
    rw [decided_all_iff parses]
    exact ⟨Expr.eval_foldl_and_eq_true.mp, fun _ => Expr.eval_foldl_and_eq_true.mpr⟩
  | any =>
    rw [decided_any_iff parses]
    exact ⟨Expr.exists_of_eval_foldl_or, fun h => by simp at h⟩

/-- A builder with a name and a message is all that is needed to combine rules. -/
theorem exists_combine_of_named (operator : GroupOperator) {rules : List Rule}
    {builder : RuleBuilder} (hne : rules ≠ []) (named : (present? builder.draft.name).isSome)
    (messaged : (present? builder.message).isSome) :
    ∃ combined, combine operator rules builder = .ok combined := by
  obtain ⟨name, hname⟩ := Option.isSome_iff_exists.mp named
  obtain ⟨message, hmessage⟩ := Option.isSome_iff_exists.mp messaged
  have hsource : present? (some (String.ofList (combinedCondition operator
      (rules.map (·.condition))))) = some _ :=
    present?_eq_some.mpr ⟨rfl, ofList_combinedCondition_ne operator (by simpa using hne)⟩
  simp [combine, hne, RuleBuilder.build, RuleBuilder.apply, required, hname, hmessage, hsource,
    bind, Except.bind]

theorem condition_of_combine {operator : GroupOperator} {rules : List Rule} {builder : RuleBuilder}
    {combined : Rule} (h : combine operator rules builder = .ok combined) :
    combined.condition =
      String.ofList (combinedCondition operator (rules.map (·.condition))) := by
  unfold combine at h
  split at h
  · exact nomatch h
  · dsimp only at h
    split at h
    · next hbuild =>
      obtain rfl := Except.ok.inj h
      have hcondition := RuleBuilder.condition_of_build hbuild
      exact (Option.some.inj (present?_eq_some.mp hcondition).1).symm
    · exact nomatch h

/-- Rules that parse are combined to one that parses to the joined tree. -/
theorem exists_combine (operator : GroupOperator) {rules : List Rule} {e : Expr} {es : List Expr}
    {builder : RuleBuilder} (parses : Parsed rules (e :: es))
    (named : (present? builder.draft.name).isSome)
    (messaged : (present? builder.message).isSome) :
    ∃ combined, combine operator rules builder = .ok combined ∧
      parse combined.condition = .ok (es.foldl operator.join e) := by
  cases parses with
  | cons first others =>
    obtain ⟨combined, hcombine⟩ :=
      exists_combine_of_named operator (List.cons_ne_nil _ _) named messaged
    refine ⟨combined, hcombine, ?_⟩
    rw [condition_of_combine hcombine]
    exact parse_of_describes (describes_combined operator (describes_of_parse first)
      (List.forall₂_map_left_iff.mpr (others.imp fun _ _ => describes_of_parse)))

/-- Combined rules are read as the trees of their conditions, joined from the left in their order.
Where the result fires, a group of the rules under the same operator triggers; under AND the
converse holds, too, while an OR group also passes over members without a boolean value. -/
theorem combine_preserves_meaning (operator : GroupOperator) {rules : List Rule} {e : Expr}
    {es : List Expr} {builder : RuleBuilder} (parses : Parsed rules (e :: es))
    (named : (present? builder.draft.name).isSome)
    (messaged : (present? builder.message).isSome) :
    ∃ combined, combine operator rules builder = .ok combined ∧
      parse combined.condition = .ok (es.foldl operator.join e) ∧
      ∀ group : RuleGroup, group.operator = operator → group.rules = rules →
        ∀ {σ : Type} (facts : Facts) (memory : σ),
          let fires := (combined.evaluate .plain facts memory).1 = .ok true
          let triggers := (group.evaluate .plain facts memory).1.triggered = true
          (fires → triggers) ∧ (operator = .all → triggers → fires) := by
  obtain ⟨combined, hcombine, hparse⟩ := exists_combine operator parses named messaged
  refine ⟨combined, hcombine, hparse, ?_⟩
  intro group hoperator hrules σ facts memory fires triggers
  have hfires : fires ↔ (es.foldl operator.join e).eval facts = .ok (.bool true) := by
    rw [← evaluate_of_parse hparse, ← map_firesOn_eq_ok]
    simp only [fires, evaluate_plain]
  have htriggers : triggers ↔ Decided facts rules operator := by
    have hne : group.rules ≠ [] := by
      rw [hrules]
      rintro rfl
      cases parses
    rw [← hrules, ← hoperator]
    exact triggered_plain hne facts memory
  rw [hfires, htriggers]
  exact eval_joined parses

/-- Combined with `b or #c`, `a` fires where `a` and `c` are true and `b` is not. -/
theorem combine_preserves_meaning_pair :
    let rules : List Rule :=
      [⟨"r", [], "r", "a", "m", "m", 100⟩, ⟨"s", [], "s", "b or #c", "m", "m", 100⟩]
    let builder : RuleBuilder := { draft := { id := "x", name := some "n" }, message := some "m" }
    let fresh : RuleGroup := ⟨"g", [], "g", "d", 100, .all, .empty⟩
    let group := (fresh.addRule rules[0] 1).addRule rules[1] 2
    let facts := Facts.ofList [("a", .bool true), ("b", .bool false), ("c", .bool true)]
    let es : List Expr := [.var "a", .or (.var "b") (.var "c")]
    (Parsed rules es ∧ (present? builder.draft.name).isSome ∧ (present? builder.message).isSome ∧
        group.rules = rules) ∧
      ∃ combined, combine .all rules builder = .ok combined ∧
        parse combined.condition = .ok (.and (.var "a") (.or (.var "b") (.var "c"))) ∧
        (combined.evaluate .plain facts ()).1 = .ok true := by
  intro rules builder fresh group facts es
  have parses : Parsed rules es := .cons (by decide +kernel) (.cons (by decide +kernel) .nil)
  have triggers : (group.evaluate .plain facts ()).1.triggered = true := by decide +kernel
  have named : (present? builder.draft.name).isSome := by decide
  obtain ⟨combined, hcombine, hparse, hmeaning⟩ :=
    combine_preserves_meaning .all parses named (by decide)
  exact ⟨⟨parses, named, by decide, rfl⟩, combined, hcombine, hparse,
    (hmeaning group rfl rfl facts ()).2 rfl triggers⟩

end Rulebook
