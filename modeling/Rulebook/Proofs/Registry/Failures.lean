import Rulebook.Proofs.Builder
import Rulebook.Proofs.Registry.History

/-!
# Calls that fail

A combination fails for the first of its ids that is unknown, else because there are no ids, else
for the first text that its builder lacks. Groups fail for the first text, and additions for an
unknown id. A call that fails leaves the registry as it was, and a combination that does not fail
registers the rule made of the rules as they were, even in the place of one of them.
-/
namespace Rulebook

/-- The builder of a combination, with the joined conditions. -/
def joining (operator : GroupOperator) (rules : List Rule) (builder : RuleBuilder) : RuleBuilder :=
  builder.apply (.condition (String.ofList (combinedCondition operator (rules.map (·.condition)))))

/-- Joined conditions are never without text, so what may be missing is the name or the message. -/
theorem firstMissing_joining (operator : GroupOperator) {rules : List Rule} (hne : rules ≠ [])
    (builder : RuleBuilder) :
    let joined := joining operator rules builder
    firstMissing [(joined.draft.name, .name), (joined.condition, .condition),
        (joined.message, .message)] =
      firstMissing [(builder.draft.name, .name), (builder.message, .message)] := by
  have hcondition : present? (some (String.ofList (combinedCondition operator
      (rules.map (·.condition))))) = some _ :=
    present?_eq_some.mpr ⟨rfl, ofList_combinedCondition_ne operator (by simpa using hne)⟩
  simp only [joining, RuleBuilder.apply, firstMissing_cons, hcondition, Option.isNone_some,
    Bool.false_eq_true, if_false]

theorem combine_eq_error_iff {operator : GroupOperator} {rules : List Rule}
    (hne : rules ≠ []) {builder : RuleBuilder} {e : CombineError} :
    combine operator rules builder = .error e ↔
      ∃ err, (joining operator rules builder).build = .error err ∧ .build err = e := by
  simp only [combine, List.isEmpty_iff, hne, if_false, joining]
  split <;> simp [*]

theorem combine_eq_error {operator : GroupOperator} {rules : List Rule} (hne : rules ≠ [])
    {builder : RuleBuilder} {e : CombineError} :
    combine operator rules builder = .error e ↔
      ∃ field, firstMissing [(builder.draft.name, .name), (builder.message, .message)] =
        some field ∧ e = .build (.rule builder.draft.id field) := by
  rw [combine_eq_error_iff hne]
  simp only [RuleBuilder.build_eq_error, firstMissing_joining operator hne]
  constructor
  · rintro ⟨err, ⟨field, hfield, rfl⟩, rfl⟩
    exact ⟨field, hfield, rfl⟩
  · rintro ⟨field, hfield, rfl⟩
    exact ⟨_, ⟨field, hfield, rfl⟩, rfl⟩

namespace Registry

variable {registry : Registry} {ids : List String} {builder : RuleBuilder}

theorem resolve_eq_ok {rules : List Rule} :
    registry.resolve ids = .ok rules ↔ ids.map registry.rule? = rules.map some := by
  induction ids generalizing rules with
  | nil => cases rules <;> simp [resolve]
  | cons id ids ih =>
    rw [resolve, List.map_cons]
    cases hrule : registry.rule? id with
    | none => cases rules <;> simp
    | some rule =>
      simp only [bind_eq_ok, ih]
      constructor
      · rintro ⟨others, hothers, h⟩
        obtain rfl := Except.ok.inj h
        rw [hothers, List.map_cons]
      · intro h
        obtain ⟨r, others, rfl, hr, hothers⟩ := List.map_eq_cons_iff.mp h.symm
        obtain rfl := Option.some.inj hr
        exact ⟨others, hothers.symm, rfl⟩

/-- The first unknown id is the cause. -/
theorem resolve_eq_error {e : CombineError} :
    registry.resolve ids = .error e ↔
      ∃ known id rest, ids = known ++ id :: rest ∧ (∀ k ∈ known, (registry.rule? k).isSome) ∧
        registry.rule? id = none ∧ e = .unknownRule id := by
  induction ids with
  | nil => simp [resolve]
  | cons id ids ih =>
    rw [resolve]
    cases hrule : registry.rule? id with
    | none =>
      constructor
      · intro h
        exact ⟨[], id, ids, rfl, by simp, hrule, (Except.error.inj h).symm⟩
      · rintro ⟨known, id', rest, hids, hknown, -, rfl⟩
        cases known with
        | nil =>
          obtain ⟨rfl, -⟩ := List.cons.inj hids
          rfl
        | cons k known =>
          obtain ⟨rfl, -⟩ := List.cons.inj hids
          simp [hrule] at hknown
    | some rule =>
      have hrest : (registry.resolve ids >>= fun rules => .ok (rule :: rules)) = .error e ↔
          registry.resolve ids = .error e := by simp [bind_eq_error]
      rw [hrest, ih]
      constructor
      · rintro ⟨known, id', rest, rfl, hknown, hid, he⟩
        exact ⟨id :: known, id', rest, rfl, by simpa [hrule] using hknown, hid, he⟩
      · rintro ⟨known, id', rest, hids, hknown, hid, he⟩
        cases known with
        | nil =>
          obtain ⟨rfl, -⟩ := List.cons.inj hids
          simp [hrule] at hid
        | cons k known =>
          obtain ⟨-, rfl⟩ := List.cons.inj hids
          exact ⟨known, id', rest, rfl, fun k hk => hknown k (by simp [hk]), hid, he⟩

/-- Why the rules of some ids are not combined: an unknown id before anything else, then that there
are no ids, then a text that the builder lacks. The condition is never among these. -/
inductive CombineFailure (registry : Registry) (ids : List String) (builder : RuleBuilder) :
    CombineError → Prop
  | unknownRule {known rest : List String} {id : String} (split : ids = known ++ id :: rest)
      (registered : ∀ k ∈ known, (registry.rule? k).isSome) (unknown : registry.rule? id = none) :
      CombineFailure registry ids builder (.unknownRule id)
  | empty (isEmpty : ids = []) : CombineFailure registry ids builder .empty
  | missing {field : MissingField} (nonempty : ids ≠ [])
      (registered : ∀ id ∈ ids, (registry.rule? id).isSome)
      (first : firstMissing [(builder.draft.name, .name), (builder.message, .message)] =
        some field) :
      CombineFailure registry ids builder (.build (.rule builder.draft.id field))

theorem resolve_nil_iff {rules : List Rule} (h : registry.resolve ids = .ok rules) :
    rules = [] ↔ ids = [] := by
  have hlength : ids.length = rules.length := by
    simpa using congrArg List.length (resolve_eq_ok.mp h)
  rw [← List.length_eq_zero_iff, ← hlength, List.length_eq_zero_iff]

theorem exists_resolve (registered : ∀ id ∈ ids, (registry.rule? id).isSome) :
    ∃ rules, registry.resolve ids = .ok rules := by
  cases h : registry.resolve ids with
  | ok rules => exact ⟨rules, rfl⟩
  | error e =>
    obtain ⟨known, id, rest, rfl, -, hid, -⟩ := resolve_eq_error.mp h
    have hsome := registered id (by simp)
    simp [hid] at hsome

theorem isSome_of_resolve {rules : List Rule} (h : registry.resolve ids = .ok rules) :
    ∀ id ∈ ids, (registry.rule? id).isSome := by
  intro id hid
  have hmem : registry.rule? id ∈ rules.map some := by
    rw [← resolve_eq_ok.mp h]
    exact List.mem_map_of_mem hid
  obtain ⟨rule, -, hrule⟩ := List.mem_map.mp hmem
  rw [← hrule]
  rfl

theorem combineRegistered_eq_error {operator : GroupOperator} {e : CombineError} :
    (registry.combineRegistered operator ids builder).1 = .error e ↔
      CombineFailure registry ids builder e := by
  have hstages : (registry.combineRegistered operator ids builder).1 = .error e ↔
      registry.resolve ids = .error e ∨
        ∃ rules, registry.resolve ids = .ok rules ∧ combine operator rules builder = .error e := by
    unfold combineRegistered
    cases registry.resolve ids with
    | error => simp
    | ok rules => cases hcombine : combine operator rules builder <;> simp [hcombine]
  rw [hstages]
  constructor
  · rintro (h | ⟨rules, hrules, h⟩)
    · obtain ⟨known, id, rest, hids, hknown, hid, rfl⟩ := resolve_eq_error.mp h
      exact .unknownRule hids hknown hid
    · by_cases hids : ids = []
      · obtain rfl := (resolve_nil_iff hrules).mpr hids
        obtain rfl := Except.error.inj h
        exact .empty hids
      · obtain ⟨field, hfield, rfl⟩ := (combine_eq_error (mt (resolve_nil_iff hrules).mp hids)).mp h
        exact .missing hids (isSome_of_resolve hrules) hfield
  · intro h
    cases h with
    | unknownRule hids hknown hid =>
      exact .inl (resolve_eq_error.mpr ⟨_, _, _, hids, hknown, hid, rfl⟩)
    | empty hids =>
      subst hids
      exact .inr ⟨[], rfl, rfl⟩
    | missing hids registered hfield =>
      obtain ⟨rules, hrules⟩ := exists_resolve registered
      have hne : rules ≠ [] := mt (resolve_nil_iff hrules).mp hids
      exact .inr ⟨rules, hrules, (combine_eq_error hne).mpr ⟨_, hfield, rfl⟩⟩

theorem combineRegistered_eq_ok {operator : GroupOperator} {rule : Rule} {registry' : Registry} :
    registry.combineRegistered operator ids builder = (.ok rule, registry') ↔
      ∃ rules, ids.map registry.rule? = rules.map some ∧
        combine operator rules builder = .ok rule ∧ registry' = registry.registerRule rule := by
  simp only [← resolve_eq_ok, combineRegistered]
  cases registry.resolve ids with
  | error => simp
  | ok rules =>
    cases hcombine : combine operator rules builder with
    | error => simp [hcombine]
    | ok rule' =>
      simp only [hcombine, Prod.mk.injEq, Except.ok.injEq, exists_eq_left', and_congr_right_iff]
      rintro rfl
      exact eq_comm

/-- A combination that fails leaves the registry as it was. -/
theorem combineRegistered_of_error {operator : GroupOperator} {e : CombineError}
    (h : (registry.combineRegistered operator ids builder).1 = .error e) :
    (registry.combineRegistered operator ids builder).2 = registry := by
  unfold combineRegistered at h ⊢
  cases hresolve : registry.resolve ids with
  | error => rfl
  | ok rules =>
    cases hcombine : combine operator rules builder with
    | error => simp [hcombine]
    | ok rule => simp [hresolve, hcombine] at h

theorem createGroup_eq_error {operator : GroupOperator} {builder : GroupBuilder} {e : BuildError} :
    (registry.createGroup operator builder).1 = .error e ↔
      ∃ field, firstMissing [(builder.draft.name, .name),
          (builder.draft.description, .description)] = some field ∧
        e = .group builder.draft.id field := by
  have hbuild : (registry.createGroup operator builder).1 = .error e ↔
      (builder.apply (.operator operator)).build = .error e := by
    unfold createGroup
    cases (builder.apply (.operator operator)).build <;> simp
  exact hbuild.trans GroupBuilder.build_eq_error

/-- A group that is not built leaves the registry as it was. -/
theorem createGroup_of_error {operator : GroupOperator} {builder : GroupBuilder} {e : BuildError}
    (h : (registry.createGroup operator builder).1 = .error e) :
    (registry.createGroup operator builder).2 = registry := by
  unfold createGroup at h ⊢
  cases hbuild : (builder.apply (.operator operator)).build with
  | error => rfl
  | ok group => simp [hbuild] at h

theorem addToGroup_eq_false {groupId ruleId : String} {number : Int32} :
    (registry.addToGroup groupId ruleId number).1 = false ↔
      registry.rule? ruleId = none ∨ registry.group? groupId = none := by
  cases hrule : registry.rule? ruleId <;> cases hgroup : registry.group? groupId <;>
    simp [addToGroup, hrule, hgroup]

/-- An addition that finds no rule or no group leaves the registry as it was. -/
theorem addToGroup_of_false {groupId ruleId : String} {number : Int32}
    (h : (registry.addToGroup groupId ruleId number).1 = false) :
    (registry.addToGroup groupId ruleId number).2 = registry := by
  unfold addToGroup at h ⊢
  cases hrule : registry.rule? ruleId with
  | none => rfl
  | some rule =>
    cases hgroup : registry.group? groupId with
    | none => rfl
    | some group => simp [hrule, hgroup] at h

/-- A call that fails gives its cause, and it leaves the registry as it was. Rules are combined
unless there is a cause against it; then the registry registers the rule that is made of the rules
that it had under the ids, which may be the one that the new rule replaces, and the same one several
times. -/
theorem registers_or_unchanged (registry : Registry) :
    (∀ operator ids builder,
      let outcome := registry.combineRegistered operator ids builder
      (∀ e, outcome.1 = .error e ↔ CombineFailure registry ids builder e) ∧
      (∀ e, outcome.1 = .error e → outcome.2 = registry) ∧
      (∀ rule registry', outcome = (.ok rule, registry') ↔
        ∃ rules, ids.map registry.rule? = rules.map some ∧
          combine operator rules builder = .ok rule ∧ registry' = registry.registerRule rule) ∧
      registry.perform (.combine operator ids builder) = outcome.2) ∧
    (∀ operator builder,
      let outcome := registry.createGroup operator builder
      (∀ e, outcome.1 = .error e ↔
        ∃ field, firstMissing [(builder.draft.name, .name),
            (builder.draft.description, .description)] = some field ∧
          e = .group builder.draft.id field) ∧
      (∀ e, outcome.1 = .error e → outcome.2 = registry) ∧
      registry.perform (.createGroup operator builder) = outcome.2) ∧
    ∀ groupId ruleId number,
      let outcome := registry.addToGroup groupId ruleId number
      (outcome.1 = false ↔ registry.rule? ruleId = none ∨ registry.group? groupId = none) ∧
      (outcome.1 = false → outcome.2 = registry) ∧
      registry.perform (.addToGroup groupId ruleId number) = outcome.2 :=
  ⟨fun _ _ _ => ⟨fun _ => combineRegistered_eq_error, fun _ => combineRegistered_of_error,
      fun _ _ => combineRegistered_eq_ok, rfl⟩,
    fun _ _ => ⟨fun _ => createGroup_eq_error, fun _ => createGroup_of_error, rfl⟩,
    fun _ _ _ => ⟨addToGroup_eq_false, addToGroup_of_false, rfl⟩⟩

/-- A rule replaced by its own combination with itself is read before it is replaced. -/
example :
    let registry := Registry.run {} [.registerRule ⟨"i", [], "n", "x", "m", "m", 5⟩]
    let builder := (RuleBuilder.withId "i").applyAll [.set (.name "n"), .message "m"]
    ((registry.perform (.combine .any ["i", "i"] builder)).rule? "i").map (·.condition) =
      some "(x) || (x)" := by decide +kernel

end Registry

end Rulebook
