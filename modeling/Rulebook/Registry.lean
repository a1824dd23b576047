import Rulebook.Builder

/-!
# The registry

Rules and groups by id, categories by name, and for every category the list of what carries it. Such
a list ascends by priority, and what has equal priority stands in the order of registration; the
place of a newcomer is found by halving. The first category seen under a name stays the category of
that name. Rules are combined into one whose condition joins theirs, each between parentheses.

A call that may fail gives its result together with the registry after it, whatever the result is.
-/
namespace Rulebook

section PartitionPoint

variable {α : Type}

/-- Halve the stretch of the given size until one element is left, then decide by that one. -/
def halve (front : α → Bool) (l : List α) (base size : Nat) : Nat :=
  if 1 < size then
    let middle := base + size / 2
    halve front l (if l[middle]?.any front then middle else base) (size - size / 2)
  else if l[base]?.any front then base + 1 else base
termination_by size

/-- The number of elements in front, if all elements that satisfy a predicate stand in front. -/
def partitionPoint (front : α → Bool) (l : List α) : Nat := halve front l 0 l.length

end PartitionPoint

/-- An entry of a category list. Rules and groups have ids of their own. -/
inductive Member where
  | rule (id : String)
  | group (id : String)
deriving DecidableEq, Repr

/-- The entry that stands for an item. -/
def Item.member : Item → Member
  | rule r => .rule r.id
  | group g => .group g.id

structure Registry where
  config : Config
  rules : KeyMap String Rule := .empty
  groups : KeyMap String RuleGroup := .empty
  categories : KeyMap String Category := .empty
  /-- for every category name the members with their priorities -/
  index : KeyMap String (List (Int32 × Member)) := .empty
deriving DecidableEq, Repr, Inhabited

namespace Registry

def empty (config : Config) : Registry := { config }

def newRule (registry : Registry) (id : String) : RuleBuilder :=
  { draft := Draft.configured { id } registry.config }

def newGroup (registry : Registry) (id : String) : GroupBuilder :=
  { draft := Draft.configured { id } registry.config }

def rule? (registry : Registry) (id : String) : Option Rule := KeyMap.get? id registry.rules

def group? (registry : Registry) (id : String) : Option RuleGroup := KeyMap.get? id registry.groups

def ruleCount (registry : Registry) : Nat := registry.rules.size

def groupCount (registry : Registry) : Nat := registry.groups.size

/-- What an entry of a category list stands for. -/
def item? (registry : Registry) : Member → Option Item
  | .rule id => (registry.rule? id).map .rule
  | .group id => (registry.group? id).map .group

/-- The members of a category with their priorities; an unknown category has none. -/
def membersOf (registry : Registry) (category : String) : List (Int32 × Member) :=
  (KeyMap.get? category registry.index).getD []

/-- Rules and groups of a category by ascending priority. -/
def itemsIn (registry : Registry) (category : String) : List Item :=
  (registry.membersOf category).filterMap fun e => registry.item? e.2

/-- The known categories in order. -/
def allCategories (registry : Registry) : List Category := Category.sort registry.categories.values

/-- Make a category known unless one of its name is. -/
def registerCategory (registry : Registry) (c : Category) : Registry :=
  { registry with categories := KeyMap.insertNew c.name c registry.categories }

/-- The category known under a name. -/
def category? (registry : Registry) (name : String) : Option Category :=
  KeyMap.get? name registry.categories

theorem category?_registerCategory (registry : Registry) (c : Category) (name : String) :
    (registry.registerCategory c).category? name =
      if name = c.name then some ((registry.category? c.name).getD c)
      else registry.category? name := by
  simp [category?, registerCategory, KeyMap.get?_insertNew]

/-- Make a name known. A category known by nothing but its name is numbered by the settings. -/
def intern (registry : Registry) (name : String) : Registry :=
  registry.registerCategory (.named name registry.config.categoryPriority)

/-- Insert a member behind all that have the same or a smaller priority, in a list that ascends by
priority. -/
def place (priority : Int32) (member : Member) (members : List (Int32 × Member)) :
    List (Int32 × Member) :=
  let i := partitionPoint (fun e => e.1 ≤ priority) members
  members.take i ++ (priority, member) :: members.drop i

/-- List a member under a category, which becomes known by that. -/
def enlist (priority : Int32) (member : Member) (registry : Registry) (c : Category) : Registry :=
  let members := place priority member (registry.membersOf c.name)
  { registry.registerCategory c with index := KeyMap.insert c.name members registry.index }

/-- Take a member off every list. -/
def delist (member : Member) (registry : Registry) : Registry :=
  { registry with index := registry.index.mapValues fun members =>
      members.filter fun e => e.2 != member }

/-- Keep an item under its id, in place of the one of its kind that had this id. -/
def store (registry : Registry) : Item → Registry
  | .rule r => { registry with rules := KeyMap.insert r.id r registry.rules }
  | .group g => { registry with groups := KeyMap.insert g.id g registry.groups }

/-- Store an item and list it under its categories. What it replaces leaves all lists before. -/
def register (registry : Registry) (item : Item) : Registry :=
  let stored := registry.store item
  let cleared :=
    if (registry.item? item.member).isSome then stored.delist item.member else stored
  item.categories.foldl (enlist item.priority item.member) cleared

def registerRule (registry : Registry) (rule : Rule) : Registry := registry.register (.rule rule)

def registerGroup (registry : Registry) (group : RuleGroup) : Registry :=
  registry.register (.group group)

section Fields

variable (priority : Int32) (member m : Member) (registry : Registry) (c : Category)
  (cs : List Category) (item : Item)

@[simp] theorem enlist_config : (enlist priority member registry c).config = registry.config := rfl

@[simp] theorem item?_enlist : (enlist priority member registry c).item? m = registry.item? m := by
  cases m <;> rfl

@[simp] theorem foldl_enlist_config :
    (cs.foldl (enlist priority member) registry).config = registry.config := by
  induction cs generalizing registry <;> simp_all

@[simp] theorem item?_foldl_enlist :
    (cs.foldl (enlist priority member) registry).item? m = registry.item? m := by
  induction cs generalizing registry <;> simp_all

@[simp] theorem delist_config : (registry.delist member).config = registry.config := rfl

@[simp] theorem delist_categories :
    (registry.delist member).categories = registry.categories := rfl

@[simp] theorem item?_delist : (registry.delist member).item? m = registry.item? m := by
  cases m <;> rfl

@[simp] theorem store_config : (registry.store item).config = registry.config := by
  cases item <;> rfl

@[simp] theorem store_categories : (registry.store item).categories = registry.categories := by
  cases item <;> rfl

@[simp] theorem store_index : (registry.store item).index = registry.index := by
  cases item <;> rfl

@[simp] theorem register_config : (registry.register item).config = registry.config := by
  simp only [register, foldl_enlist_config]
  split <;> simp

/-- A stored item is found, and no other is touched. -/
theorem item?_store :
    (registry.store item).item? m = if m = item.member then some item else registry.item? m := by
  cases item with
  | rule r =>
    cases m with
    | rule id =>
      by_cases h : id = r.id
      · simp [store, item?, rule?, Item.member, h]
      · simp [store, item?, rule?, Item.member, h, KeyMap.get?_insert_of_ne h]
    | group id => simp [store, item?, group?, Item.member]
  | group g =>
    cases m with
    | rule id => simp [store, item?, rule?, Item.member]
    | group id =>
      by_cases h : id = g.id
      · simp [store, item?, group?, Item.member, h]
      · simp [store, item?, group?, Item.member, h, KeyMap.get?_insert_of_ne h]

/-- Registration stores an item whatever was stored before. -/
theorem item?_register :
    (registry.register item).item? m =
      if m = item.member then some item else registry.item? m := by
  simp only [register, item?_foldl_enlist]
  split <;> simp [item?_store]

end Fields

/-- Add a registered rule to a registered group, as it is now. It says whether both are known, and
does nothing if they are not. -/
def addToGroup (registry : Registry) (groupId ruleId : String) (number : Int32) :
    Bool × Registry :=
  match registry.rule? ruleId, registry.group? groupId with
  | some rule, some group =>
    (true, { registry with
      groups := KeyMap.insert groupId (group.addRule rule number) registry.groups })
  | _, _ => (false, registry)

/-- Build a group under an operator and register it. -/
def createGroup (registry : Registry) (operator : GroupOperator) (builder : GroupBuilder) :
    Except BuildError RuleGroup × Registry :=
  match (builder.apply (.operator operator)).build with
  | .ok group => (.ok group, registry.registerGroup group)
  | .error e => (.error e, registry)

end Registry

/-- Why rules are not combined. -/
inductive CombineError where
  | empty
  | unknownRule (id : String)
  | build (e : BuildError)
deriving DecidableEq, Repr

def CombineError.message : CombineError → String
  | .empty => "no rules to combine"
  | .unknownRule id => s!"unknown rule id '{id}' in combination"
  | .build e => e.message

/-- What stands between two combined conditions. -/
def GroupOperator.joiner : GroupOperator → List Char
  | .all => [' ', '&', '&', ' ']
  | .any => [' ', '|', '|', ' ']

/-- The conditions between parentheses, joined. -/
def combinedCondition (operator : GroupOperator) : List String → List Char
  | [] => []
  | [c] => '(' :: (c.toList ++ [')'])
  | c :: d :: rest =>
    '(' :: (c.toList ++ ')' :: (operator.joiner ++ combinedCondition operator (d :: rest)))

/-- Joined conditions are never without text. -/
theorem ofList_combinedCondition_ne (operator : GroupOperator) {conditions : List String}
    (hne : conditions ≠ []) : String.ofList (combinedCondition operator conditions) ≠ "" := by
  obtain ⟨c, conditions, rfl⟩ := List.exists_cons_of_ne_nil hne
  cases conditions <;> simp [combinedCondition]

/-- The rule that joins the given ones; everything but the condition comes from the builder. -/
def combine (operator : GroupOperator) (rules : List Rule) (builder : RuleBuilder) :
    Except CombineError Rule :=
  if rules.isEmpty then .error .empty
  else
    let source := String.ofList (combinedCondition operator (rules.map (·.condition)))
    match (builder.apply (.condition source)).build with
    | .ok rule => .ok rule
    | .error e => .error (.build e)

namespace Registry

/-- The rules of a list of ids, or the first id that is unknown. -/
def resolve (registry : Registry) : List String → Except CombineError (List Rule)
  | [] => .ok []
  | id :: ids =>
    match registry.rule? id with
    | none => .error (.unknownRule id)
    | some rule => do
      let rules ← registry.resolve ids
      .ok (rule :: rules)

/-- Combine registered rules and register the result. -/
def combineRegistered (registry : Registry) (operator : GroupOperator) (ids : List String)
    (builder : RuleBuilder) : Except CombineError Rule × Registry :=
  match registry.resolve ids with
  | .error e => (.error e, registry)
  | .ok rules =>
    match combine operator rules builder with
    | .error e => (.error e, registry)
    | .ok rule => (.ok rule, registry.registerRule rule)

end Registry

end Rulebook
