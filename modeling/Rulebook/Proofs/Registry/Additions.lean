import Rulebook.Proofs.Group
import Rulebook.Proofs.Registry.Failures

/-!
# What registered groups hold

A registered group is the one that was last registered under its id, with the rules that were added
to it since. An addition takes the rule as it is registered at that moment, so what is registered
later under the id of the rule does not reach the group. The calls since the registration are
followed one by one, and the rules that they add are collected in their order.
-/
namespace Rulebook

/-- The group that a call registers. -/
def Operation.group? : Operation → Option RuleGroup
  | .registerGroup group => some group
  | .createGroup operator builder => (builder.apply (.operator operator)).build.toOption
  | .registerRule _ | .intern _ | .registerCategory _ | .combine _ _ _ | .addToGroup _ _ _ => none

/-- Whether a call registers a group under an id. -/
def Operation.Registers (operation : Operation) (id : String) : Prop :=
  ∃ group, operation.group? = some group ∧ group.id = id

namespace RuleGroup

theorem addAll_append (group : RuleGroup) (additions later : List (Rule × Int32)) :
    group.addAll (additions ++ later) = (group.addAll additions).addAll later := by
  rw [addAll, List.foldl_append]
  rfl

theorem addAll_id (group : RuleGroup) (additions : List (Rule × Int32)) :
    (group.addAll additions).id = group.id := by rw [addAll_eq]

/-- A group made by a builder is what was built, with the rules added since. -/
theorem Built.exists_addAll {group : RuleGroup} (h : group.Built) :
    ∃ (builder : GroupBuilder) (fresh : RuleGroup) (own : List (Rule × Int32)),
      builder.build = .ok fresh ∧ group = fresh.addAll own := by
  induction h with
  | @build builder group _ built => exact ⟨builder, group, [], built, rfl⟩
  | addRule _ rule number ih =>
    obtain ⟨builder, fresh, own, built, rfl⟩ := ih
    exact ⟨builder, fresh, own ++ [(rule, number)], built, by rw [addAll_append]; rfl⟩

end RuleGroup

namespace Registry

/-- The rule that a call adds to the group of an id, as it is registered, with its number. -/
def addition? (registry : Registry) (id : String) : Operation → Option (Rule × Int32)
  | .addToGroup groupId ruleId number =>
    if groupId = id ∧ (registry.group? id).isSome then (registry.rule? ruleId).map (·, number)
    else none
  | .registerRule _ | .registerGroup _ | .intern _ | .registerCategory _ | .combine _ _ _
  | .createGroup _ _ => none

/-- What calls add to the group of an id, one after the other. -/
def additions (registry : Registry) (id : String) : List Operation → List (Rule × Int32)
  | [] => []
  | operation :: operations =>
    (registry.addition? id operation).toList ++ (registry.perform operation).additions id operations

theorem group?_registerRule (registry : Registry) (rule : Rule) (id : String) :
    (registry.registerRule rule).group? id = registry.group? id :=
  Option.map_injective (fun _ _ => Item.group.inj)
    (item?_register (.group id) registry (.rule rule))

theorem group?_registerGroup (registry : Registry) (group : RuleGroup) (id : String) :
    (registry.registerGroup group).group? id =
      if id = group.id then some group else registry.group? id := by
  refine Option.map_injective (fun _ _ => Item.group.inj)
    ((item?_register (.group id) registry (.group group)).trans ?_)
  by_cases h : id = group.id <;> simp [Item.member, item?, h]

section Step

variable (registry : Registry) {id : String} {operation : Operation}

theorem perform_of_group? {group : RuleGroup} (h : operation.group? = some group) :
    registry.perform operation = registry.registerGroup group := by
  cases operation with
  | registerGroup given =>
    obtain rfl := Option.some.inj h
    rfl
  | createGroup operator builder =>
    rw [perform, createGroup, toOption_eq_some.mp h]
  | registerRule | intern | registerCategory | combine | addToGroup =>
    simp [Operation.group?] at h

/-- A rule added to the group of another id does not reach this one. -/
theorem group?_addToGroup {groupId ruleId : String} {number : Int32} :
    (registry.perform (.addToGroup groupId ruleId number)).group? id =
      (registry.group? id).map
        (·.addAll (registry.addition? id (.addToGroup groupId ruleId number)).toList) := by
  simp only [perform, addToGroup, addition?]
  cases hrule : registry.rule? ruleId with
  | none => simp [RuleGroup.addAll]
  | some rule =>
    by_cases hid : groupId = id
    · subst hid
      cases hgroup : registry.group? groupId with
      | none => simp [hgroup]
      | some group => simp [group?, RuleGroup.addAll]
    · cases hgroup : registry.group? groupId <;>
        simp [hid, group?, KeyMap.get?_insert_of_ne (Ne.symm hid), RuleGroup.addAll]

/-- A call that does not register the group adds a rule to it if it does anything to it. -/
theorem group?_perform_of_not_registers (h : ¬ operation.Registers id) :
    (registry.perform operation).group? id =
      (registry.group? id).map (·.addAll (registry.addition? id operation).toList) := by
  have unchanged (heq : (registry.perform operation).group? id = registry.group? id)
      (hnone : registry.addition? id operation = none) :
      (registry.perform operation).group? id =
        (registry.group? id).map (·.addAll (registry.addition? id operation).toList) := by
    simp [heq, hnone, RuleGroup.addAll]
  cases operation with
  | registerRule rule => exact unchanged (group?_registerRule registry rule id) rfl
  | registerGroup group =>
    have hid : id ≠ group.id := fun hid => h ⟨group, rfl, hid.symm⟩
    refine unchanged ?_ rfl
    rw [perform, group?_registerGroup, if_neg hid]
  | intern name => exact unchanged rfl rfl
  | registerCategory c => exact unchanged rfl rfl
  | combine operator ids builder =>
    refine unchanged ?_ rfl
    cases hresult : (registry.combineRegistered operator ids builder).1 with
    | error e => rw [perform, combineRegistered_of_error hresult]
    | ok rule =>
      obtain ⟨-, -, -, hafter⟩ := combineRegistered_eq_ok.mp (Prod.ext hresult rfl)
      exact (congrArg (·.group? id) hafter).trans (group?_registerRule registry rule id)
  | createGroup operator builder =>
    refine unchanged ?_ rfl
    cases hbuild : (builder.apply (.operator operator)).build with
    | error e =>
      rw [perform, createGroup, hbuild]
    | ok group =>
      have hgroup : (Operation.createGroup operator builder).group? = some group :=
        toOption_eq_some.mpr hbuild
      have hid : id ≠ group.id := fun hid => h ⟨group, hgroup, hid.symm⟩
      rw [perform_of_group? registry hgroup, group?_registerGroup, if_neg hid]
  | addToGroup groupId ruleId number => exact group?_addToGroup registry

end Step

theorem group?_foldl_perform (registry : Registry) {id : String} {operations : List Operation}
    (quiet : ∀ operation ∈ operations, ¬ operation.Registers id) :
    (operations.foldl perform registry).group? id =
      (registry.group? id).map (·.addAll (registry.additions id operations)) := by
  induction operations generalizing registry with
  | nil => simp [additions, RuleGroup.addAll]
  | cons operation operations ih =>
    rw [List.foldl_cons, ih _ fun o ho => quiet o (by simp [ho]),
      group?_perform_of_not_registers registry (quiet operation (by simp)), Option.map_map,
      additions]
    simp only [Function.comp_def, RuleGroup.addAll_append]

/-- A call of a run that registers a group under an id and is the last one to do so, with the calls
before and after it. The group is what a builder built, with the rules added before it was
registered. -/
structure LatestRegistration (operations : List Operation) (id : String)
    (before : List Operation) (call : Operation) (fresh : RuleGroup) (own : List (Rule × Int32))
    (after : List Operation) : Prop where
  split : operations = before ++ call :: after
  registers : call.group? = some (fresh.addAll own)
  built : ∃ builder : GroupBuilder, builder.build = .ok fresh
  id_eq : fresh.id = id
  latest : ∀ operation ∈ after, ¬ operation.Registers id

theorem run_concat_call (config : Config) (operations : List Operation) (operation : Operation) :
    run config (operations ++ [operation]) = (run config operations).perform operation := by
  simp [run]

/-- What a call registers has the shape that builders and additions give it. -/
theorem exists_addAll_of_group? {operation : Operation} (built : operation.Built)
    {group : RuleGroup} (h : operation.group? = some group) :
    ∃ (fresh : RuleGroup) (own : List (Rule × Int32)),
      (∃ builder : GroupBuilder, builder.build = .ok fresh) ∧ group = fresh.addAll own := by
  cases operation with
  | registerGroup given =>
    obtain rfl := Option.some.inj h
    obtain ⟨builder, fresh, own, hbuild, heq⟩ := RuleGroup.Built.exists_addAll built
    exact ⟨fresh, own, ⟨builder, hbuild⟩, heq⟩
  | createGroup operator builder => exact ⟨group, [], ⟨_, toOption_eq_some.mp h⟩, rfl⟩
  | registerRule | intern | registerCategory | combine | addToGroup =>
    simp [Operation.group?] at h

/-- Only a registration makes a group known. -/
theorem exists_latestRegistration (config : Config) {operations : List Operation}
    (built : ∀ operation ∈ operations, operation.Built) {id : String}
    (known : ((run config operations).group? id).isSome) :
    ∃ before call fresh own after,
      LatestRegistration operations id before call fresh own after := by
  induction operations using List.reverseRecOn with
  | nil => exact nomatch known
  | append_singleton operations operation ih =>
    by_cases registers : operation.Registers id
    · obtain ⟨group, hgroup, hid⟩ := registers
      obtain ⟨fresh, own, hbuilt, rfl⟩ := exists_addAll_of_group? (built operation (by simp)) hgroup
      rw [RuleGroup.addAll_id] at hid
      exact ⟨operations, operation, fresh, own, [], rfl, hgroup, hbuilt, hid, by simp⟩
    · rw [run_concat_call, group?_perform_of_not_registers _ registers, Option.isSome_map] at known
      obtain ⟨before, call, fresh, own, after, h⟩ := ih (fun o ho => built o (by simp [ho])) known
      refine ⟨before, call, fresh, own, after ++ [operation], ?_, h.registers, h.built, h.id_eq, ?_⟩
      · simp [h.split]
      · intro o ho
        rcases List.mem_append.mp ho with ho | ho
        · exact h.latest o ho
        · obtain rfl := List.mem_singleton.mp ho
          exact registers

theorem LatestRegistration.group?_eq {operations : List Operation} {id : String}
    {before : List Operation} {call : Operation} {fresh : RuleGroup} {own : List (Rule × Int32)}
    {after : List Operation} (h : LatestRegistration operations id before call fresh own after)
    (config : Config) :
    (run config operations).group? id =
      some (fresh.addAll (own ++ (run config (before ++ [call])).additions id after)) := by
  have hrun : run config operations = after.foldl perform (run config (before ++ [call])) := by
    simp [h.split, run]
  have hcall : (run config (before ++ [call])).group? id = some (fresh.addAll own) := by
    rw [run_concat_call, perform_of_group? _ h.registers, group?_registerGroup,
      RuleGroup.addAll_id, h.id_eq, if_pos rfl]
  rw [hrun, group?_foldl_perform _ h.latest, hcall, Option.map_some, RuleGroup.addAll_append]

/-- After any calls a known group is the one last registered under its id, in all but the members.
Its member at a number is the rule last put there, by the additions to the group before it was
registered and then by the calls since that add a rule to it, as the rule was registered when it was
added. No other call changes it. -/
theorem group?_run (config : Config) (operations : List Operation)
    (built : ∀ operation ∈ operations, operation.Built) (id : String) :
    let registry := run config operations
    ((registry.group? id).isSome → ∃ before call fresh own after,
      LatestRegistration operations id before call fresh own after) ∧
    (∀ before call fresh own after, LatestRegistration operations id before call fresh own after →
      let placed := own ++ (run config (before ++ [call])).additions id after
      ∃ group, registry.group? id = some group ∧
        group = { fresh.addAll own with members := group.members } ∧
        Entries.Ascending group.members.entries ∧
        ∀ rule number, (number, rule) ∈ group.members.entries ↔
          (placed.filter (·.2 = number)).getLast? = some (rule, number)) ∧
    ∀ operation, ¬ operation.Registers id → registry.addition? id operation = none →
      (registry.perform operation).group? id = registry.group? id := by
  intro registry
  refine ⟨exists_latestRegistration config built, fun before call fresh own after h => ?_,
    fun operation quiet hnone => ?_⟩
  · intro placed
    obtain ⟨builder, hbuild⟩ := h.built
    have empty := RuleGroup.members_of_build hbuild
    refine ⟨fresh.addAll placed, h.group?_eq config, ?_, (fresh.addAll placed).members.ascending,
      RuleGroup.mem_addAll empty placed⟩
    rw [RuleGroup.addAll_append]
    exact RuleGroup.addAll_eq _ _
  · rw [group?_perform_of_not_registers registry quiet, hnone]
    simp [RuleGroup.addAll]

/-- The group is registered again and so loses its first addition. Then it takes the rule under 7,
loses a member of its own under 3 to the rule that replaced that rule, and keeps both when the rule
is replaced again. -/
theorem group?_run_replaced :
    let rule (condition : String) : Rule :=
      ⟨"i", [.named "default" 100], "n", condition, "m", "m", 100⟩
    let group : RuleGroup := ⟨"i", [.named "default" 100], "n", "d", 100, .any, .empty⟩
    let operations : List Operation := [.registerGroup group, .registerRule (rule "a"),
      .addToGroup "i" "i" 2, .registerGroup (group.addRule (rule "own") 3), .addToGroup "i" "i" 7,
      .registerRule (rule "b"), .addToGroup "i" "i" 3, .addToGroup "i" "j" 3,
      .combine .all ["i"] ((RuleBuilder.withId "i").applyAll [.set (.name "n"), .message "m"])]
    (∀ operation ∈ operations, operation.Built) ∧
      ∃ group', (run {} operations).group? "i" = some group' ∧ group'.operator = .any ∧
        (7, rule "a") ∈ group'.members.entries ∧ (3, rule "b") ∈ group'.members.entries ∧
        ∀ other, (2, other) ∉ group'.members.entries := by
  intro rule group operations
  have ruleBuilt (condition : String) (hset : condition.isEmpty = false) :
      (rule condition).Built := by
    refine ⟨_, ⟨"i", [.set (.name "n"), .condition condition, .message "m"], rfl⟩, ?_⟩
    simp [RuleBuilder.applyAll, RuleBuilder.apply, RuleBuilder.build, RuleBuilder.withId,
      Draft.apply, Draft.finalCategories, required, present?, hset, bind, Except.bind, rule,
      defaultCategory, defaultPriority]
  have hfresh : ((GroupBuilder.withId "i").applyAll [.set (.name "n"), .set (.description "d"),
      .operator .any]).build = .ok group := by decide +kernel
  have groupBuilt : group.Built := .build ⟨"i", _, rfl⟩ hfresh
  have built : ∀ operation ∈ operations, operation.Built := by
    simp only [operations, List.forall_mem_cons, List.not_mem_nil]
    exact ⟨groupBuilt, ruleBuilt "a" rfl, trivial, groupBuilt.addRule _ _, trivial,
      ruleBuilt "b" rfl, trivial, trivial, ⟨"i", _, rfl⟩, by simp⟩
  have latest : LatestRegistration operations "i" (operations.take 3)
      (.registerGroup (group.addRule (rule "own") 3)) group [(rule "own", 3)]
      (operations.drop 4) := by
    refine ⟨rfl, rfl, ⟨_, hfresh⟩, rfl, fun operation h => ?_⟩
    rintro ⟨given, hgiven, -⟩
    simp only [operations, List.drop_succ_cons, List.drop_zero, List.mem_cons, List.not_mem_nil,
      or_false] at h
    rcases h with rfl | rfl | rfl | rfl | rfl <;> simp [Operation.group?] at hgiven
  have hadded : (run {} (operations.take 3 ++ [.registerGroup (group.addRule (rule "own") 3)])
      ).additions "i" (operations.drop 4) = [(rule "a", 7), (rule "b", 3)] := by decide +kernel
  obtain ⟨-, hcontents, -⟩ := group?_run {} operations built "i"
  obtain ⟨group', hgroup, heq, -, hmem⟩ := hcontents _ _ _ _ _ latest
  rw [hadded] at hmem
  exact ⟨built, group', hgroup, by rw [heq]; rfl, by simp [hmem], by simp [hmem], by simp [hmem]⟩

end Registry

end Rulebook
