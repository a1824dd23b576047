import Mathlib.Data.List.Induction
import Mathlib.Data.List.Nodup
import Rulebook.Builder
import Rulebook.Proofs.Evaluation.Connectives

/-!
# What builders build

Rules and groups come from builders, and builders come from calls. Whatever the calls were, no two
categories of the result have the same name, and a builder that builds nothing reports the first
mandatory text that it lacks.
-/
namespace Rulebook

/-- No two categories have the same name. -/
def DistinctNames (cs : List Category) : Prop := (cs.map Category.name).Nodup

namespace Category

theorem distinctNames_addNew {cs : List Category} (h : DistinctNames cs) (c : Category) :
    DistinctNames (addNew cs c) := by
  unfold addNew
  split
  · exact h
  · next hnew =>
    have hfresh : c.name ∉ cs.map name := by
      intro hmem
      obtain ⟨d, hd, hname⟩ := List.mem_map.mp hmem
      exact hnew (List.any_eq_true.mpr ⟨d, hd, by simp [sameName, hname]⟩)
    unfold DistinctNames
    rw [List.map_append]
    exact List.nodup_append.mpr ⟨h, List.nodup_singleton _, by
      intro n hn n' hn' heq
      obtain rfl : n' = c.name := by simpa using hn'
      exact hfresh (heq ▸ hn)⟩

theorem distinctNames_dedup (cs : List Category) : DistinctNames (dedup cs) := by
  suffices ∀ done, DistinctNames done → DistinctNames (cs.foldl addNew done) from
    this [] List.nodup_nil
  induction cs with
  | nil => exact fun done h => h
  | cons c cs ih => exact fun done h => ih _ (distinctNames_addNew h c)

end Category

namespace Draft

theorem distinctNames_apply {draft : Draft} (h : DistinctNames draft.categories)
    (setting : Setting) : DistinctNames (draft.apply setting).categories := by
  cases setting with
  | category c => exact Category.distinctNames_addNew h c
  | categoryNamed name => exact Category.distinctNames_addNew h _
  | categories cs => exact Category.distinctNames_dedup cs
  | id | name | description | priority | fallback => exact h

theorem distinctNames_final {draft : Draft} (h : DistinctNames draft.categories) :
    DistinctNames draft.finalCategories := by
  unfold finalCategories
  split
  · exact List.nodup_singleton _
  · exact h

end Draft

/-- Present is a text that is set and has a character. -/
theorem present?_eq_some {text : Option String} {s : String} :
    present? text = some s ↔ text = some s ∧ s ≠ "" := by
  cases text with
  | none => simp [present?]
  | some t =>
    simp only [present?, String.isEmpty_iff]
    split <;> grind

/-- Missing is a text that is not set, and an empty one. -/
theorem present?_eq_none {text : Option String} :
    present? text = none ↔ text = none ∨ text = some "" := by
  cases text <;> simp [present?]

theorem required_eq_ok {value : Option String} {missing : BuildError} {s : String} :
    required value missing = .ok s ↔ present? value = some s := by
  unfold required
  cases present? value <;> simp

theorem required_eq_error {value : Option String} {missing e : BuildError} :
    required value missing = .error e ↔ present? value = none ∧ missing = e := by
  unfold required
  cases present? value <;> simp

/-- The first of the fields that have no text. -/
def firstMissing (fields : List (Option String × MissingField)) : Option MissingField :=
  (fields.find? fun f => (present? f.1).isNone).map Prod.snd

theorem firstMissing_cons (text : Option String) (field : MissingField)
    (fields : List (Option String × MissingField)) :
    firstMissing ((text, field) :: fields) =
      if (present? text).isNone then some field else firstMissing fields := by
  rw [firstMissing, List.find?_cons]
  cases (present? text).isNone <;> rfl

namespace RuleBuilder

/-- Made by calls on a new builder. -/
def Reachable (builder : RuleBuilder) : Prop := ∃ id calls, builder = (withId id).applyAll calls

theorem Reachable.apply {builder : RuleBuilder} (h : builder.Reachable) (call : Call) :
    (builder.apply call).Reachable := by
  obtain ⟨id, calls, rfl⟩ := h
  exact ⟨id, calls ++ [call], by simp [applyAll]⟩

theorem Reachable.distinctNames {builder : RuleBuilder} (h : builder.Reachable) :
    DistinctNames builder.draft.categories := by
  obtain ⟨id, calls, rfl⟩ := h
  induction calls using List.reverseRecOn with
  | nil => exact List.nodup_nil
  | append_singleton calls call ih =>
    rw [applyAll, List.foldl_append]
    cases call with
    | set setting => exact Draft.distinctNames_apply ih setting
    | condition | message => exact ih

theorem of_build_eq_ok {builder : RuleBuilder} {rule : Rule} (h : builder.build = .ok rule) :
    ∃ name condition message, present? builder.draft.name = some name ∧
      present? builder.condition = some condition ∧ present? builder.message = some message ∧
      rule = {
        id := builder.draft.id
        categories := builder.draft.finalCategories
        name
        condition
        message
        description := (present? builder.draft.description).getD message
        priority := builder.draft.priority } := by
  simp only [build, bind_eq_ok, required_eq_ok] at h
  obtain ⟨name, hname, condition, hcondition, message, hmessage, h⟩ := h
  exact ⟨name, condition, message, hname, hcondition, hmessage, (Except.ok.inj h).symm⟩

theorem categories_of_build {builder : RuleBuilder} {rule : Rule} (h : builder.build = .ok rule) :
    rule.categories = builder.draft.finalCategories := by
  obtain ⟨_, _, _, -, -, -, rfl⟩ := of_build_eq_ok h
  rfl

theorem condition_of_build {builder : RuleBuilder} {rule : Rule} (h : builder.build = .ok rule) :
    present? builder.condition = some rule.condition := by
  obtain ⟨_, _, _, -, hcondition, -, rfl⟩ := of_build_eq_ok h
  exact hcondition

theorem build_eq_error {builder : RuleBuilder} {e : BuildError} :
    builder.build = .error e ↔
      ∃ field, firstMissing [(builder.draft.name, .name), (builder.condition, .condition),
          (builder.message, .message)] = some field ∧ e = .rule builder.draft.id field := by
  simp only [build, bind_eq_error, required_eq_error, required_eq_ok, firstMissing_cons]
  cases present? builder.draft.name <;> cases present? builder.condition <;>
    cases present? builder.message <;> simp [eq_comm, firstMissing]

end RuleBuilder

/-- Made by a builder. -/
def Rule.Built (rule : Rule) : Prop :=
  ∃ builder : RuleBuilder, builder.Reachable ∧ builder.build = .ok rule

theorem Rule.Built.distinctNames {rule : Rule} (h : rule.Built) :
    DistinctNames rule.categories := by
  obtain ⟨builder, reachable, hbuild⟩ := h
  rw [RuleBuilder.categories_of_build hbuild]
  exact Draft.distinctNames_final reachable.distinctNames

namespace GroupBuilder

/-- Made by calls on a new builder. -/
def Reachable (builder : GroupBuilder) : Prop := ∃ id calls, builder = (withId id).applyAll calls

theorem Reachable.apply {builder : GroupBuilder} (h : builder.Reachable) (call : Call) :
    (builder.apply call).Reachable := by
  obtain ⟨id, calls, rfl⟩ := h
  exact ⟨id, calls ++ [call], by simp [applyAll]⟩

theorem Reachable.distinctNames {builder : GroupBuilder} (h : builder.Reachable) :
    DistinctNames builder.draft.categories := by
  obtain ⟨id, calls, rfl⟩ := h
  induction calls using List.reverseRecOn with
  | nil => exact List.nodup_nil
  | append_singleton calls call ih =>
    rw [applyAll, List.foldl_append]
    cases call with
    | set setting => exact Draft.distinctNames_apply ih setting
    | operator => exact ih

theorem of_build_eq_ok {builder : GroupBuilder} {group : RuleGroup}
    (h : builder.build = .ok group) :
    ∃ name description, present? builder.draft.name = some name ∧
      present? builder.draft.description = some description ∧
      group = {
        id := builder.draft.id
        categories := builder.draft.finalCategories
        name
        description
        priority := builder.draft.priority
        operator := builder.operator
        members := .empty } := by
  simp only [build, bind_eq_ok, required_eq_ok] at h
  obtain ⟨name, hname, description, hdescription, h⟩ := h
  exact ⟨name, description, hname, hdescription, (Except.ok.inj h).symm⟩

theorem categories_of_build {builder : GroupBuilder} {group : RuleGroup}
    (h : builder.build = .ok group) : group.categories = builder.draft.finalCategories := by
  obtain ⟨_, _, -, -, rfl⟩ := of_build_eq_ok h
  rfl

theorem build_eq_error {builder : GroupBuilder} {e : BuildError} :
    builder.build = .error e ↔
      ∃ field, firstMissing [(builder.draft.name, .name),
          (builder.draft.description, .description)] = some field ∧
        e = .group builder.draft.id field := by
  simp only [build, bind_eq_error, required_eq_error, required_eq_ok, firstMissing_cons]
  cases present? builder.draft.name <;> cases present? builder.draft.description <;>
    simp [eq_comm, firstMissing]

end GroupBuilder

/-- Made by a builder, with rules added since. -/
inductive RuleGroup.Built : RuleGroup → Prop
  | build {builder : GroupBuilder} {group : RuleGroup} (reachable : builder.Reachable)
      (built : builder.build = .ok group) : Built group
  | addRule {group : RuleGroup} (built : Built group) (rule : Rule) (number : Int32) :
      Built (group.addRule rule number)

theorem RuleGroup.Built.distinctNames {group : RuleGroup} (h : group.Built) :
    DistinctNames group.categories := by
  induction h with
  | build reachable built =>
    rw [GroupBuilder.categories_of_build built]
    exact Draft.distinctNames_final reachable.distinctNames
  | addRule _ _ _ ih => exact ih

end Rulebook
