import Mathlib.Data.List.Dedup
import Mathlib.Data.List.Induction
import Rulebook.Proofs.Builder
import Rulebook.Registry

/-!
# What a registry was told

The calls on a registry, and what they come to as a history of events: rules and groups that were
registered and rules that were added to groups. The history knows no index. An entity is looked up
as the last one registered under its id, and the entities stand in the order of their latest
registration.
-/
namespace Rulebook

/-- A call that may change a registry. -/
inductive Operation where
  | registerRule (rule : Rule)
  | registerGroup (group : RuleGroup)
  | intern (name : String)
  | registerCategory (c : Category)
  | combine (operator : GroupOperator) (ids : List String) (builder : RuleBuilder)
  | createGroup (operator : GroupOperator) (builder : GroupBuilder)
  | addToGroup (groupId ruleId : String) (number : Int32)

/-- Rules, groups and builders in the call were made by builders. -/
def Operation.Built : Operation → Prop
  | .registerRule rule => rule.Built
  | .registerGroup group => group.Built
  | .combine _ _ builder => builder.Reachable
  | .createGroup _ builder => builder.Reachable
  | .intern _ | .registerCategory _ | .addToGroup _ _ _ => True

namespace Registry

/-- The registry after a call, whether or not the call fails. -/
def perform (registry : Registry) : Operation → Registry
  | .registerRule rule => registry.registerRule rule
  | .registerGroup group => registry.registerGroup group
  | .intern name => registry.intern name
  | .registerCategory c => registry.registerCategory c
  | .combine operator ids builder => (registry.combineRegistered operator ids builder).2
  | .createGroup operator builder => (registry.createGroup operator builder).2
  | .addToGroup groupId ruleId number => (registry.addToGroup groupId ruleId number).2

/-- The registry after some calls on an empty one. -/
def run (config : Config) (operations : List Operation) : Registry :=
  operations.foldl perform (empty config)

end Registry

/-- What a call comes to. -/
inductive Event where
  | rule (rule : Rule)
  | group (group : RuleGroup)
  | addition (groupId : String) (rule : Rule) (number : Int32)

namespace Item

def hasCategory (i : Item) (name : String) : Bool :=
  match i with
  | rule r => r.hasCategory name
  | group g => g.hasCategory name

theorem hasCategory_eq_any (i : Item) (name : String) :
    i.hasCategory name = i.categories.any (·.name == name) := by
  cases i <;> rfl

/-- Add a rule to the group of an id; other items stay as they are. -/
def addTo (groupId : String) (r : Rule) (number : Int32) : Item → Item
  | rule r' => rule r'
  | group g => if g.id = groupId then group (g.addRule r number) else group g

section Fields

variable (groupId : String) (r : Rule) (number : Int32) (i : Item) (name : String)

@[simp] theorem addTo_member : (i.addTo groupId r number).member = i.member := by
  cases i with
  | rule => rfl
  | group g => simp only [addTo]; split <;> rfl

@[simp] theorem addTo_priority : (i.addTo groupId r number).priority = i.priority := by
  cases i with
  | rule => rfl
  | group g => simp only [addTo]; split <;> rfl

@[simp] theorem addTo_hasCategory :
    (i.addTo groupId r number).hasCategory name = i.hasCategory name := by
  cases i with
  | rule => rfl
  | group g => simp only [addTo]; split <;> rfl

end Fields

end Item

namespace Event

/-- The rule of an id after the event. -/
def onRule (id : String) (current : Option Rule) : Event → Option Rule
  | rule r => if r.id = id then some r else current
  | group _ | addition _ _ _ => current

/-- The group of an id after the event. -/
def onGroup (id : String) (current : Option RuleGroup) : Event → Option RuleGroup
  | group g => if g.id = id then some g else current
  | addition groupId r number => if groupId = id then current.map (·.addRule r number) else current
  | rule _ => current

/-- What the event registers. -/
def item? : Event → Option Item
  | rule r => some (.rule r)
  | group g => some (.group g)
  | addition _ _ _ => none

def ruleId? : Event → Option String
  | rule r => some r.id
  | group _ | addition _ _ _ => none

def groupId? : Event → Option String
  | group g => some g.id
  | rule _ | addition _ _ _ => none

end Event

/-- Events, the latest at the end. -/
abbrev History : Type := List Event

namespace History

/-- The rule last registered under an id. -/
def rule? (past : History) (id : String) : Option Rule := past.foldl (Event.onRule id) none

/-- The group last registered under an id, with the rules added to it since. -/
def group? (past : History) (id : String) : Option RuleGroup := past.foldl (Event.onGroup id) none

/-- The different ids that rules were registered under. -/
def ruleIds (past : History) : List String := (past.filterMap Event.ruleId?).dedup

/-- The different ids that groups were registered under. -/
def groupIds (past : History) : List String := (past.filterMap Event.groupId?).dedup

/-- The current version of an item. -/
def current? (past : History) : Member → Option Item
  | .rule id => (past.rule? id).map .rule
  | .group id => (past.group? id).map .group

/-- The members in the order of their latest registration: of equal elements the last one stays. -/
def order (past : History) : List Member :=
  ((past.filterMap Event.item?).map Item.member).dedup

/-- The current versions of all items in the order of their latest registration. -/
def items (past : History) : List Item := past.order.filterMap past.current?

/-- What the call comes to after the given history. -/
def next? (past : History) : Operation → Option Event
  | .registerRule rule => some (.rule rule)
  | .registerGroup group => some (.group group)
  | .intern _ | .registerCategory _ => none
  | .combine operator ids builder => do
    let rules ← ids.mapM past.rule?
    let rule ← (Rulebook.combine operator rules builder).toOption
    some (.rule rule)
  | .createGroup operator builder => do
    let group ← (builder.apply (.operator operator)).build.toOption
    some (.group group)
  | .addToGroup groupId ruleId number => do
    let rule ← past.rule? ruleId
    let _ ← past.group? groupId
    some (.addition groupId rule number)

/-- The history of some calls. -/
def ofOperations (operations : List Operation) : History :=
  operations.foldl (fun past operation => past ++ (past.next? operation).toList) []

section Concat

variable {past : History} {e : Event}

theorem rule?_concat (id : String) :
    rule? (past ++ [e]) id = e.onRule id (past.rule? id) := by simp [rule?]

theorem group?_concat (id : String) :
    group? (past ++ [e]) id = e.onGroup id (past.group? id) := by simp [group?]

theorem id_of_rule? {id : String} {r : Rule} (h : past.rule? id = some r) : r.id = id := by
  induction past using List.reverseRecOn with
  | nil => simp [rule?] at h
  | append_singleton past e ih =>
    rw [rule?_concat] at h
    cases e with
    | rule r' =>
      simp only [Event.onRule] at h
      split at h
      · next hid =>
        obtain rfl := Option.some.inj h
        exact hid
      · exact ih h
    | group | addition => exact ih h

theorem id_of_group? {id : String} {g : RuleGroup} (h : past.group? id = some g) : g.id = id := by
  induction past using List.reverseRecOn generalizing g with
  | nil => simp [group?] at h
  | append_singleton past e ih =>
    rw [group?_concat] at h
    cases e with
    | rule => exact ih h
    | group g' =>
      simp only [Event.onGroup] at h
      split at h
      · next hid =>
        obtain rfl := Option.some.inj h
        exact hid
      · exact ih h
    | addition groupId r number =>
      simp only [Event.onGroup] at h
      split at h
      · obtain ⟨g', hg', rfl⟩ := Option.map_eq_some_iff.mp h
        have hid : g'.id = id := ih hg'
        exact hid
      · exact ih h

theorem member_of_current? {m : Member} {i : Item} (h : past.current? m = some i) :
    i.member = m := by
  cases m with
  | rule id =>
    obtain ⟨r, hr, rfl⟩ := Option.map_eq_some_iff.mp h
    exact congrArg Member.rule (id_of_rule? hr)
  | group id =>
    obtain ⟨g, hg, rfl⟩ := Option.map_eq_some_iff.mp h
    exact congrArg Member.group (id_of_group? hg)

theorem isSome_rule? (id : String) :
    (past.rule? id).isSome ↔ id ∈ past.filterMap Event.ruleId? := by
  induction past using List.reverseRecOn with
  | nil => simp [rule?]
  | append_singleton past e ih =>
    rw [rule?_concat, List.filterMap_append, List.mem_append, ← ih]
    cases e with
    | rule r =>
      by_cases h : r.id = id
      · simp [Event.onRule, Event.ruleId?, h]
      · simp [Event.onRule, Event.ruleId?, h, Ne.symm h]
    | group | addition => simp [Event.onRule, Event.ruleId?]

theorem isSome_group? (id : String) :
    (past.group? id).isSome ↔ id ∈ past.filterMap Event.groupId? := by
  induction past using List.reverseRecOn with
  | nil => simp [group?]
  | append_singleton past e ih =>
    rw [group?_concat, List.filterMap_append, List.mem_append, ← ih]
    cases e with
    | group g =>
      by_cases h : g.id = id
      · simp [Event.onGroup, Event.groupId?, h]
      · simp [Event.onGroup, Event.groupId?, h, Ne.symm h]
    | addition groupId r number =>
      by_cases h : groupId = id <;> simp [Event.onGroup, Event.groupId?, h]
    | rule => simp [Event.onGroup, Event.groupId?]

/-- A registered item is current from then on, and no other item changes. -/
theorem current?_concat_of_item {i : Item} (h : e.item? = some i) (m : Member) :
    current? (past ++ [e]) m = if m = i.member then some i else past.current? m := by
  cases e with
  | rule r =>
    obtain rfl := Option.some.inj h
    cases m with
    | rule id =>
      by_cases hid : r.id = id
      · simp [current?, rule?_concat, Event.onRule, Item.member, hid]
      · simp [current?, rule?_concat, Event.onRule, Item.member, hid, Ne.symm hid]
    | group id => simp [current?, group?_concat, Event.onGroup, Item.member]
  | group g =>
    obtain rfl := Option.some.inj h
    cases m with
    | rule id => simp [current?, rule?_concat, Event.onRule, Item.member]
    | group id =>
      by_cases hid : g.id = id
      · simp [current?, group?_concat, Event.onGroup, Item.member, hid]
      · simp [current?, group?_concat, Event.onGroup, Item.member, hid, Ne.symm hid]
  | addition => simp [Event.item?] at h

theorem current?_concat_addition (groupId : String) (r : Rule) (number : Int32) (m : Member) :
    current? (past ++ [.addition groupId r number]) m =
      (past.current? m).map (·.addTo groupId r number) := by
  cases m with
  | rule id =>
    cases h : past.rule? id with
    | none => simp [current?, rule?_concat, Event.onRule, h]
    | some r' => simp [current?, rule?_concat, Event.onRule, Item.addTo, h]
  | group id =>
    cases h : past.group? id with
    | none => simp [current?, group?_concat, Event.onGroup, h]
    | some g =>
      obtain rfl := id_of_group? h
      by_cases hid : groupId = g.id
      · simp [current?, group?_concat, Event.onGroup, Item.addTo, h, hid]
      · simp [current?, group?_concat, Event.onGroup, Item.addTo, h, hid, Ne.symm hid]

/-- A repeated element moves to the end. -/
theorem dedup_concat {α : Type} [DecidableEq α] (l : List α) (a : α) :
    (l ++ [a]).dedup = l.dedup.filter (· != a) ++ [a] := by
  induction l with
  | nil => simp
  | cons b l ih =>
    rw [List.cons_append, List.dedup_cons, List.dedup_cons, ih]
    by_cases hb : b ∈ l
    · simp [hb]
    · by_cases hba : b = a
      · subst hba
        simp [hb]
      · simp [hb, hba]

theorem order_concat_of_item {i : Item} (h : e.item? = some i) :
    order (past ++ [e]) = past.order.filter (· != i.member) ++ [i.member] := by
  simp [order, h, dedup_concat]

/-- Members may be left out before or after they are looked up. -/
theorem filterMap_current?_filter (m : Member) (ms : List Member) :
    (ms.filter (· != m)).filterMap past.current? =
      (ms.filterMap past.current?).filter (·.member != m) := by
  rw [List.filterMap_filter, List.filter_filterMap]
  refine List.filterMap_congr fun m' _ => ?_
  cases h : past.current? m' with
  | none => simp
  | some i =>
    rw [Option.filter_some, member_of_current? h]

/-- A registered item leaves its place and stands at the end. -/
theorem items_concat_of_item {i : Item} (h : e.item? = some i) :
    items (past ++ [e]) = past.items.filter (·.member != i.member) ++ [i] := by
  have hother : ∀ m, m ∈ past.order.filter (· != i.member) →
      current? (past ++ [e]) m = past.current? m := by
    intro m hm
    rw [current?_concat_of_item h, if_neg]
    simpa using (List.mem_filter.mp hm).2
  have hself : current? (past ++ [e]) i.member = some i := by
    rw [current?_concat_of_item h, if_pos rfl]
  rw [items, order_concat_of_item h, List.filterMap_append, List.filterMap_congr hother,
    filterMap_current?_filter]
  simp [items, hself]

/-- An addition to a group moves nothing. -/
theorem items_concat_addition (groupId : String) (r : Rule) (number : Int32) :
    items (past ++ [.addition groupId r number]) = past.items.map (·.addTo groupId r number) := by
  have horder : order (past ++ [.addition groupId r number]) = past.order := by
    simp [order, Event.item?, List.filterMap_cons]
  rw [items, horder, items, List.map_filterMap]
  exact List.filterMap_congr fun m _ => current?_concat_addition groupId r number m

theorem current?_of_mem_items {i : Item} (h : i ∈ past.items) :
    past.current? i.member = some i := by
  obtain ⟨m, -, hm⟩ := List.mem_filterMap.mp h
  rwa [member_of_current? hm]

/-- No member has two items. -/
theorem nodup_members (past : History) : (past.items.map Item.member).Nodup := by
  rw [items, List.map_filterMap]
  refine List.Nodup.filterMap (fun m m' n hm hm' => ?_) (List.nodup_dedup _)
  obtain ⟨i, hi, rfl⟩ := Option.map_eq_some_iff.mp hm
  obtain ⟨i', hi', heq⟩ := Option.map_eq_some_iff.mp hm'
  rw [← member_of_current? hi, ← member_of_current? hi', heq]

end Concat

end History

end Rulebook
