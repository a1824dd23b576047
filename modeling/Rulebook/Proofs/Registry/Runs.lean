import Rulebook.Proofs.KeyMap
import Rulebook.Proofs.Registry.Lookup
import Rulebook.Proofs.Sorting

/-!
# Registries and their histories

A registry finds its entities by id and lists them by category. The lists are changed in place by
registration, so that they are right rests on what they were before: sorted, with every item of the
category once and nothing else. What registration makes of a list is compared with what one more
event makes of the list that a history asks for.

The invariant says all that a registry answers in terms of the history that led to it. A call keeps
it, whether it registers, adds, does neither or fails, and so it holds after every run.
-/
namespace Rulebook

/-- The order of a category list. -/
def notBefore (a b : Int32 × Member) : Bool := a.1 ≤ b.1

theorem notBefore_trans (a b c : Int32 × Member) (hab : notBefore a b = true)
    (hbc : notBefore b c = true) : notBefore a c = true := by
  simp only [notBefore, decide_eq_true_eq] at *
  exact Int32.le_trans hab hbc

theorem notBefore_total (a b : Int32 × Member) : (notBefore a b || notBefore b a) = true := by
  simpa [notBefore] using Int32.le_total a.1 b.1

namespace Registry

/-- In a sorted list a member is placed where sorting puts it. -/
theorem place_mergeSort (priority : Int32) (m : Member) (l : List (Int32 × Member)) :
    place priority m (l.mergeSort notBefore) = (l ++ [(priority, m)]).mergeSort notBefore := by
  have hsorted := List.pairwise_mergeSort notBefore_trans notBefore_total l
  obtain ⟨l₁, l₂, hl, h₁, h₂⟩ := exists_split notBefore_trans notBefore_total hsorted (priority, m)
  have hpoint : partitionPoint (fun e => e.1 ≤ priority) (l₁ ++ l₂) = l₁.length :=
    partitionPoint_append h₁ h₂
  rw [← insert_mergeSort notBefore_trans notBefore_total hl h₁ h₂, hl]
  simp only [place, hpoint, List.take_left', List.drop_left']

section Members

variable (registry : Registry) (priority : Int32) (m : Member) (name : String)

theorem membersOf_enlist (c : Category) :
    (enlist priority m registry c).membersOf name =
      if name = c.name then place priority m (registry.membersOf name)
      else registry.membersOf name := by
  by_cases h : name = c.name
  · simp [membersOf, enlist, h]
  · simp [membersOf, enlist, h, KeyMap.get?_insert_of_ne h]

/-- Under distinct names a member is placed in each of its lists once. -/
theorem membersOf_foldl_enlist {cs : List Category} (distinct : DistinctNames cs) :
    (cs.foldl (enlist priority m) registry).membersOf name =
      if cs.any (·.name == name) then place priority m (registry.membersOf name)
      else registry.membersOf name := by
  induction cs generalizing registry with
  | nil => rfl
  | cons c cs ih =>
    obtain ⟨hfresh, hdistinct⟩ := List.nodup_cons.mp distinct
    rw [List.foldl_cons, ih _ hdistinct, membersOf_enlist, List.any_cons]
    by_cases hc : name = c.name
    · subst hc
      have hnone : cs.any (·.name == c.name) = false := by
        refine List.any_eq_false.mpr fun d hd heq => hfresh ?_
        exact List.mem_map.mpr ⟨d, hd, by simpa using heq⟩
      simp [hnone]
    · simp [hc, Ne.symm hc]

theorem membersOf_delist :
    (registry.delist m).membersOf name = (registry.membersOf name).filter (·.2 != m) := by
  simp only [membersOf, delist, KeyMap.get?_mapValues]
  cases KeyMap.get? name registry.index <;> rfl

/-- What is not known is not listed, so taking it off changes nothing. -/
theorem membersOf_cleared (known : Bool)
    (fresh : known = false → ∀ e ∈ registry.membersOf name, e.2 ≠ m) :
    (if known then registry.delist m else registry).membersOf name =
      (registry.membersOf name).filter (·.2 != m) := by
  cases known with
  | true => exact membersOf_delist registry m name
  | false =>
    refine (List.filter_eq_self.mpr fun e he => ?_).symm
    simpa using fresh rfl e he

end Members

/-- The list of a category after an item was registered, given the list before. -/
def relist (i : Item) (name : String) (members : List (Int32 × Member)) : List (Int32 × Member) :=
  let kept := members.filter (·.2 != i.member)
  if i.hasCategory name then place i.priority i.member kept else kept

theorem membersOf_store (registry : Registry) (item : Item) (name : String) :
    (registry.store item).membersOf name = registry.membersOf name := by
  rw [membersOf, store_index, membersOf]

theorem membersOf_register {registry : Registry} {item : Item}
    (distinct : DistinctNames item.categories) {name : String}
    (fresh : registry.item? item.member = none →
      ∀ e ∈ registry.membersOf name, e.2 ≠ item.member) :
    (registry.register item).membersOf name = relist item name (registry.membersOf name) := by
  have hcleared := membersOf_cleared (registry.store item) item.member name
    (registry.item? item.member).isSome (by simpa [membersOf_store] using fresh)
  rw [register, membersOf_foldl_enlist _ _ _ _ distinct, hcleared, membersOf_store, relist,
    item.hasCategory_eq_any]

end Registry

/-- The entry of an item in category lists. -/
def Item.entry (i : Item) : Int32 × Member := (i.priority, i.member)

namespace History

variable {past : History} {e : Event} {name : String}

/-- The entries of a category in the order of their latest registration. -/
def entries (past : History) (name : String) : List (Int32 × Member) :=
  (past.items.filter (·.hasCategory name)).map Item.entry

theorem entries_concat_of_item {i : Item} (h : e.item? = some i) :
    entries (past ++ [e]) name = (past.entries name).filter (·.2 != i.member) ++
      if i.hasCategory name then [i.entry] else [] := by
  rw [entries, items_concat_of_item h, List.filter_append, List.map_append, List.filter_comm,
    entries, List.filter_map]
  congr 1
  by_cases hname : i.hasCategory name = true <;> simp [hname]

theorem entries_concat_addition (groupId : String) (r : Rule) (number : Int32) :
    entries (past ++ [.addition groupId r number]) name = past.entries name := by
  rw [entries, items_concat_addition, List.filter_map, List.map_map, entries]
  simp [Function.comp_def, Item.entry]

/-- Only current items are listed. -/
theorem current?_of_mem_entries {a : Int32 × Member} (h : a ∈ past.entries name) :
    (past.current? a.2).isSome := by
  obtain ⟨i, hi, rfl⟩ := List.mem_map.mp h
  rw [Item.entry, current?_of_mem_items (List.mem_filter.mp hi).1]
  rfl

/-- Registration changes a sorted list to the sorted list. -/
theorem mergeSort_entries_concat {i : Item} (h : e.item? = some i) :
    (entries (past ++ [e]) name).mergeSort notBefore =
      Registry.relist i name ((past.entries name).mergeSort notBefore) := by
  rw [entries_concat_of_item h, Registry.relist,
    filter_mergeSort notBefore_trans notBefore_total]
  by_cases hname : i.hasCategory name = true
  · simp only [hname, if_true, Registry.place_mergeSort]
    rfl
  · simp [hname]

/-- Looking up the entries of a sorted list gives the sorted items. -/
theorem filterMap_mergeSort_entries {look : Member → Option Item}
    (hlook : ∀ m, look m = past.current? m) :
    ((past.entries name).mergeSort notBefore).filterMap (fun a => look a.2) =
      (past.items.filter (·.hasCategory name)).mergeSort fun i j => i.priority ≤ j.priority := by
  have hsort : ((past.items.filter (·.hasCategory name)).mergeSort
      fun i j => i.priority ≤ j.priority).map Item.entry =
        (past.entries name).mergeSort notBefore :=
    List.map_mergeSort fun _ _ _ _ => rfl
  rw [← hsort, List.filterMap_map]
  refine (List.filterMap_congr fun i hi => ?_).trans List.filterMap_some
  have hmem := (List.mem_filter.mp (List.mem_mergeSort.mp hi)).1
  exact (hlook _).trans (current?_of_mem_items hmem)

end History

/-- A combined rule is made by the builder it was asked of. -/
theorem built_of_combine {operator : GroupOperator} {rules : List Rule} {builder : RuleBuilder}
    {rule : Rule} (reachable : builder.Reachable)
    (h : combine operator rules builder = .ok rule) : rule.Built := by
  unfold combine at h
  split at h
  · simp at h
  · dsimp only at h
    split at h
    · next hbuild =>
      obtain rfl := Except.ok.inj h
      exact ⟨_, reachable.apply _, hbuild⟩
    · simp at h

/-- What built rules and groups introduce has distinct names. -/
theorem History.distinctNames_introduced (config : Config) (past : History) {operation : Operation}
    (built : operation.Built) : DistinctNames (past.introduced config operation) := by
  cases operation with
  | registerRule rule => exact Rule.Built.distinctNames built
  | registerGroup group => exact RuleGroup.Built.distinctNames built
  | intern name => exact List.nodup_singleton _
  | registerCategory c => exact List.nodup_singleton _
  | combine operator ids builder =>
    simp only [introduced, next?]
    cases ids.mapM past.rule? with
    | none => exact List.nodup_nil
    | some rules =>
      cases hcombine : combine operator rules builder with
      | error err => simp [Except.toOption, hcombine, DistinctNames]
      | ok rule =>
        have hrule : rule.Built := built_of_combine built hcombine
        simpa [Except.toOption, hcombine, Event.categories] using hrule.distinctNames
  | createGroup operator builder =>
    simp only [introduced, next?]
    cases hbuild : (builder.apply (.operator operator)).build with
    | error err => exact List.nodup_nil
    | ok group =>
      have hgroup : group.Built := .build (GroupBuilder.Reachable.apply built _) hbuild
      exact hgroup.distinctNames
  | addToGroup groupId ruleId number =>
    simp only [introduced, next?]
    cases past.rule? ruleId <;> cases past.group? groupId <;> exact List.nodup_nil

/-- A registry answers what its history says. -/
structure Mirrors (registry : Registry) (past : History) : Prop where
  recalls : Recalls registry past
  members : ∀ name, registry.membersOf name = (past.entries name).mergeSort notBefore

namespace Mirrors

variable {registry : Registry} {past : History}

/-- What has no current version is on no list. -/
theorem not_listed (h : Mirrors registry past) {m : Member} (hm : registry.item? m = none)
    (name : String) : ∀ a ∈ registry.membersOf name, a.2 ≠ m := by
  rintro a ha rfl
  rw [h.members, List.mem_mergeSort] at ha
  have hsome := History.current?_of_mem_entries ha
  rw [← h.recalls, hm] at hsome
  simp at hsome

theorem step (h : Mirrors registry past) {event : Option Event} {cs : List Category}
    (distinct : DistinctNames cs) {registry' : Registry}
    (effect : Effect registry event cs registry') : Mirrors registry' (past ++ event.toList) where
  recalls := h.recalls.step effect
  members name := by
    cases effect with
    | item registered =>
      rw [Registry.membersOf_register distinct fun hnone => h.not_listed hnone name, h.members,
        Option.toList_some, History.mergeSort_entries_concat registered]
    | addition found r number =>
      rw [Option.toList_some, History.entries_concat_addition]
      exact h.members name
    | category c =>
      rw [Option.toList_none, List.append_nil]
      exact h.members name
    | nothing =>
      rw [Option.toList_none, List.append_nil]
      exact h.members name

/-- Every call keeps registry and history together. -/
theorem perform (h : Mirrors registry past) {operation : Operation} (built : operation.Built) :
    Mirrors (registry.perform operation) (past ++ (past.next? operation).toList) :=
  h.step (History.distinctNames_introduced registry.config past built) (h.recalls.effect operation)

end Mirrors

theorem mirrors_empty (config : Config) : Mirrors (.empty config) [] :=
  ⟨recalls_empty config, fun _ => List.mergeSort_nil.symm⟩

theorem mirrors_run (config : Config) (operations : List Operation)
    (built : ∀ operation ∈ operations, operation.Built) :
    Mirrors (Registry.run config operations) (History.ofOperations operations) := by
  induction operations using List.reverseRecOn with
  | nil => exact mirrors_empty config
  | append_singleton operations operation ih =>
    have hfront := ih fun o ho => built o (by simp [ho])
    simpa [Registry.run, History.ofOperations] using hfront.perform (built operation (by simp))

/-- After any calls a registry finds under an id what was last registered under it, a group with the
rules added since, and has as many rules and groups as ids were registered. A category lists the
current items that carry it, each once, sorted by priority; items of equal priority stand in the
order of their latest registration. -/
theorem run_eq_history (config : Config) (operations : List Operation)
    (built : ∀ operation ∈ operations, operation.Built) :
    let registry := Registry.run config operations
    let past := History.ofOperations operations
    (∀ id, registry.rule? id = past.rule? id) ∧ (∀ id, registry.group? id = past.group? id) ∧
      registry.ruleCount = past.ruleIds.length ∧ registry.groupCount = past.groupIds.length ∧
      ∀ category, registry.itemsIn category =
          (past.items.filter (·.hasCategory category)).mergeSort
            (fun i j => i.priority ≤ j.priority) ∧
        ((registry.itemsIn category).map Item.member).Nodup := by
  intro registry past
  have h : Mirrors registry past := mirrors_run config operations built
  have hrules : registry.ruleCount = past.ruleIds.length :=
    KeyMap.size_eq fun id => by
      rw [← History.isSome_rule?, ← h.recalls.rule, Registry.rule?]
  have hgroups : registry.groupCount = past.groupIds.length :=
    KeyMap.size_eq fun id => by
      rw [← History.isSome_group?, ← h.recalls.group, Registry.group?]
  refine ⟨h.recalls.rule, h.recalls.group, hrules, hgroups, fun category => ?_⟩
  have hitems : registry.itemsIn category =
      (past.items.filter (·.hasCategory category)).mergeSort
        fun i j => i.priority ≤ j.priority := by
    rw [Registry.itemsIn, h.members]
    exact History.filterMap_mergeSort_entries h.recalls
  refine ⟨hitems, ?_⟩
  rw [hitems]
  have hperm := List.mergeSort_perm (past.items.filter (·.hasCategory category))
    fun i j => i.priority ≤ j.priority
  exact (hperm.map Item.member).nodup_iff.mpr
    ((History.nodup_members past).sublist (List.filter_sublist.map Item.member))

/-- A rule registered again stands behind a group of its id and priority, and is added to the group
as it is now. -/
theorem run_eq_history_replaced :
    let rule (message : String) : Rule := ⟨"i", [.named "c" 5], "n", "a", message, message, 5⟩
    let group : RuleGroup := ⟨"i", [.named "c" 5], "g", "d", 5, .any, .empty⟩
    let operations : List Operation := [.registerRule (rule "old"), .registerGroup group,
      .registerRule (rule "new"), .addToGroup "i" "i" 1, .combine .all ["i", "j"] (.withId "k")]
    (∀ operation ∈ operations, operation.Built) ∧
      (Registry.run {} operations).itemsIn "c" =
        [.group (group.addRule (rule "new") 1), .rule (rule "new")] := by
  intro rule group operations
  have hold : (rule "old").Built :=
    ⟨_, ⟨"i", [.set (.name "n"), .condition "a", .message "old", .set (.priority 5),
      .set (.categoryNamed "c")], rfl⟩, by decide +kernel⟩
  have hnew : (rule "new").Built :=
    ⟨_, ⟨"i", [.set (.name "n"), .condition "a", .message "new", .set (.priority 5),
      .set (.categoryNamed "c")], rfl⟩, by decide +kernel⟩
  have hgroup : group.Built :=
    .build ⟨"i", [.set (.name "g"), .set (.description "d"), .set (.priority 5),
      .set (.categoryNamed "c"), .operator .any], rfl⟩ (by decide +kernel)
  have built : ∀ operation ∈ operations, operation.Built := by
    simp only [operations, List.forall_mem_cons, List.not_mem_nil]
    exact ⟨hold, hgroup, hnew, trivial, ⟨"k", [], rfl⟩, by simp⟩
  refine ⟨built, ?_⟩
  obtain ⟨-, -, -, -, h⟩ := run_eq_history {} operations built
  have hitems : (History.ofOperations operations).items.filter (·.hasCategory "c") =
      [.group (group.addRule (rule "new") 1), .rule (rule "new")] := by decide +kernel
  rw [(h "c").1, hitems]
  exact List.mergeSort_of_pairwise (by decide)

end Rulebook
