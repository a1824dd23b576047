import Rulebook.Proofs.Registry.History

/-!
# Calls and lookups

Whoever made its rules and groups, a registry finds by id what its history says. Lookups are all
that a call depends on, so the history of a registry determines what the next call does to it:
register a rule or a group, add to a group, make a category known, or nothing.
-/
namespace Rulebook

/-- The registry finds what its history says. -/
def Recalls (registry : Registry) (past : History) : Prop :=
  ∀ m, registry.item? m = past.current? m

/-- The categories that come with an event. -/
def Event.categories : Event → List Category
  | rule r => r.categories
  | group g => g.categories
  | addition _ _ _ => []

/-- The categories that the call introduces after the given history, in their order. -/
def History.introduced (config : Config) (past : History) : Operation → List Category
  | .intern name => [.named name config.categoryPriority]
  | .registerCategory c => [c]
  | operation => (past.next? operation).elim [] Event.categories

/-- What a call makes of a registry if it comes to the given event and introduces the given
categories. -/
inductive Effect (registry : Registry) : Option Event → List Category → Registry → Prop
  | item {e : Event} {i : Item} (registered : e.item? = some i) :
      Effect registry (some e) i.categories (registry.register i)
  | addition {groupId : String} {g : RuleGroup} (found : registry.group? groupId = some g)
      (r : Rule) (number : Int32) :
      Effect registry (some (.addition groupId r number)) []
        { registry with groups := KeyMap.insert groupId (g.addRule r number) registry.groups }
  | category (c : Category) : Effect registry none [c] (registry.registerCategory c)
  | nothing : Effect registry none [] registry

namespace Recalls

variable {registry registry' : Registry} {past : History}

theorem rule (h : Recalls registry past) (id : String) : registry.rule? id = past.rule? id :=
  Option.map_injective (fun _ _ => Item.rule.inj) (h (.rule id))

theorem group (h : Recalls registry past) (id : String) : registry.group? id = past.group? id :=
  Option.map_injective (fun _ _ => Item.group.inj) (h (.group id))

theorem of_lookups (rule : ∀ id, registry.rule? id = past.rule? id)
    (group : ∀ id, registry.group? id = past.group? id) : Recalls registry past := fun m => by
  cases m <;> simp [Registry.item?, History.current?, rule, group]

theorem toOption_resolve (h : Recalls registry past) (ids : List String) :
    (registry.resolve ids).toOption = ids.mapM past.rule? := by
  induction ids with
  | nil => rfl
  | cons id ids ih =>
    rw [List.mapM_cons, ← ih, ← h.rule, Registry.resolve]
    cases registry.rule? id with
    | none => rfl
    | some rule => cases registry.resolve ids <;> rfl

theorem effect_rule (r : Rule) :
    Effect registry (some (.rule r)) (Event.rule r).categories (registry.registerRule r) :=
  .item (e := .rule r) (i := .rule r) rfl

theorem effect_group (g : RuleGroup) :
    Effect registry (some (.group g)) (Event.group g).categories (registry.registerGroup g) :=
  .item (e := .group g) (i := .group g) rfl

theorem effect_combine (h : Recalls registry past) (operator : GroupOperator) (ids : List String)
    (builder : RuleBuilder) :
    Effect registry (past.next? (.combine operator ids builder))
      (past.introduced registry.config (.combine operator ids builder))
      (registry.perform (.combine operator ids builder)) := by
  have hresolve := h.toOption_resolve ids
  simp only [Registry.perform, Registry.combineRegistered, History.introduced, History.next?,
    ← hresolve]
  cases registry.resolve ids with
  | error err => exact .nothing
  | ok rules =>
    cases hcombine : combine operator rules builder with
    | error err => simpa [Except.toOption, hcombine] using Effect.nothing
    | ok rule => simpa [Except.toOption, hcombine] using effect_rule rule

theorem effect_createGroup (operator : GroupOperator) (builder : GroupBuilder) :
    Effect registry (past.next? (.createGroup operator builder))
      (past.introduced registry.config (.createGroup operator builder))
      (registry.perform (.createGroup operator builder)) := by
  simp only [Registry.perform, Registry.createGroup, History.introduced, History.next?]
  cases (builder.apply (.operator operator)).build with
  | error err => exact .nothing
  | ok group => exact effect_group group

theorem effect_addToGroup (h : Recalls registry past) (groupId ruleId : String) (number : Int32) :
    Effect registry (past.next? (.addToGroup groupId ruleId number))
      (past.introduced registry.config (.addToGroup groupId ruleId number))
      (registry.perform (.addToGroup groupId ruleId number)) := by
  simp only [Registry.perform, Registry.addToGroup, History.introduced, History.next?, ← h.rule,
    ← h.group]
  cases registry.rule? ruleId with
  | none => exact .nothing
  | some rule =>
    cases hgroup : registry.group? groupId with
    | none => simpa [hgroup] using Effect.nothing
    | some group => simpa [hgroup, Event.categories] using Effect.addition hgroup rule number

/-- What a call does to a registry is determined by its history. -/
theorem effect (h : Recalls registry past) (operation : Operation) :
    Effect registry (past.next? operation) (past.introduced registry.config operation)
      (registry.perform operation) := by
  cases operation with
  | registerRule rule => exact effect_rule rule
  | registerGroup group => exact effect_group group
  | intern name => exact .category _
  | registerCategory c => exact .category c
  | combine operator ids builder => exact h.effect_combine operator ids builder
  | createGroup operator builder => exact effect_createGroup operator builder
  | addToGroup groupId ruleId number => exact h.effect_addToGroup groupId ruleId number

/-- After a call the registry recalls the event of the call. -/
theorem step (h : Recalls registry past) {event : Option Event} {cs : List Category}
    (effect : Effect registry event cs registry') : Recalls registry' (past ++ event.toList) := by
  cases effect with
  | @item e i registered =>
    intro m
    rw [Registry.item?_register, h m, Option.toList_some,
      History.current?_concat_of_item registered]
  | @addition groupId g found r number =>
    refine of_lookups (fun id => ?_) (fun id => ?_)
    · rw [Option.toList_some, History.rule?_concat]
      exact h.rule id
    · rw [Option.toList_some, History.group?_concat, ← h.group]
      by_cases hid : id = groupId
      · subst hid
        rw [found]
        simp [Registry.group?, Event.onGroup]
      · simp [Registry.group?, Event.onGroup, KeyMap.get?_insert_of_ne hid, Ne.symm hid]
  | category c =>
    rw [Option.toList_none, List.append_nil]
    exact of_lookups h.rule h.group
  | nothing => simpa using h

theorem perform (h : Recalls registry past) (operation : Operation) :
    Recalls (registry.perform operation) (past ++ (past.next? operation).toList) :=
  h.step (h.effect operation)

end Recalls

theorem recalls_empty (config : Config) : Recalls (.empty config) [] :=
  .of_lookups (fun _ => rfl) fun _ => rfl

theorem recalls_run (config : Config) (operations : List Operation) :
    Recalls (Registry.run config operations) (History.ofOperations operations) := by
  induction operations using List.reverseRecOn with
  | nil => exact recalls_empty config
  | append_singleton operations operation ih =>
    simpa [Registry.run, History.ofOperations] using ih.perform operation

end Rulebook
