import Rulebook.Evaluator

/-!
# Rules and groups

A rule is a condition with the message shown when it fires. A group has rules under numbers,
combined by AND or OR: members are evaluated in ascending number, and only as far as the outcome is
open. A member that fails to evaluate decides an AND group against firing and is passed over by an
OR group.

Both carry categories. A category is known by its name: two with one name are the same category,
whatever else differs. Their order is another matter: sequence number first, then name.
-/
namespace Rulebook

open Condition

structure Category where
  name : String
  description : String
  sequence : Int32
deriving DecidableEq, Repr, Inhabited

namespace Category

/-- A category described by its name. -/
def named (name : String) (sequence : Int32) : Category := ⟨name, name, sequence⟩

/-- Same category: same name. -/
def sameName (a b : Category) : Bool := a.name == b.name

/-- Lower sequence numbers first, names decide among equal ones. -/
def order (a b : Category) : Ordering :=
  (compare a.sequence.toInt b.sequence.toInt).then (compare a.name b.name)

/-- The order of categories as a yes or no. -/
def notAfter (a b : Category) : Bool := (a.order b).isLE

/-- Categories in ascending order; equal ones stay as they are. -/
def sort (categories : List Category) : List Category := categories.mergeSort notAfter

/-- Add a category at the end unless one of that name is there. -/
def addNew (categories : List Category) (c : Category) : List Category :=
  if categories.any (·.sameName c) then categories else categories ++ [c]

/-- The first category of each name, in order. -/
def dedup (categories : List Category) : List Category := categories.foldl addNew []

end Category

structure Rule where
  id : String
  categories : List Category
  name : String
  condition : String
  message : String
  description : String
  priority : Int32
deriving DecidableEq, Repr, Inhabited

/-- Only the boolean `true` fires. -/
def firesOn (v : Value) : Bool := v.asBool?.getD false

/-- A condition evaluated to whether it fires. -/
def Evaluator.condition {σ : Type} (evaluator : Evaluator σ) (source : String) (facts : Facts)
    (memory : σ) : Except EvalError Bool × σ :=
  match evaluator source facts memory with
  | (.ok v, memory') => (.ok (firesOn v), memory')
  | (.error e, memory') => (.error e, memory')

namespace Rule

def hasCategory (rule : Rule) (name : String) : Bool := rule.categories.any (·.name == name)

def evaluate {σ : Type} (rule : Rule) (evaluator : Evaluator σ) (facts : Facts) (memory : σ) :
    Except EvalError Bool × σ :=
  evaluator.condition rule.condition facts memory

end Rule

inductive GroupOperator where
  | all | any
deriving DecidableEq, Repr, Inhabited

namespace GroupOperator

def word : GroupOperator → String
  | all => "AND"
  | any => "OR"

/-- The outcome over no members at all, before the rule that an empty group never fires. -/
def identity : GroupOperator → Bool
  | all => true
  | any => false

end GroupOperator

structure RuleGroup where
  id : String
  categories : List Category
  name : String
  description : String
  priority : Int32
  operator : GroupOperator
  /-- the members by number -/
  members : KeyMap Int32 Rule
deriving DecidableEq, Repr, Inhabited

/-- What a group came to: whether it fired, and then with what message. -/
structure GroupEvaluation where
  triggered : Bool
  message : Option String
deriving DecidableEq, Repr

namespace RuleGroup

variable {σ : Type}

def hasCategory (group : RuleGroup) (name : String) : Bool := group.categories.any (·.name == name)

/-- Put a rule under a number, in place of the rule that had it. -/
def addRule (group : RuleGroup) (rule : Rule) (number : Int32) : RuleGroup :=
  { group with members := KeyMap.insert number rule group.members }

/-- The member rules, by ascending number. -/
def rules (group : RuleGroup) : List Rule := group.members.values

/-- Whether every rule fires; stops at the first that does not. -/
def allFire (evaluator : Evaluator σ) (facts : Facts) : List Rule → σ → Bool × σ
  | [], memory => (GroupOperator.all.identity, memory)
  | rule :: rest, memory =>
    match rule.evaluate evaluator facts memory with
    | (.ok true, memory') => allFire evaluator facts rest memory'
    | (_, memory') => (false, memory')

/-- Whether some rule fires; stops at the first that does. -/
def anyFires (evaluator : Evaluator σ) (facts : Facts) : List Rule → σ → Bool × σ
  | [], memory => (GroupOperator.any.identity, memory)
  | rule :: rest, memory =>
    match rule.evaluate evaluator facts memory with
    | (.ok true, memory') => (true, memory')
    | (_, memory') => anyFires evaluator facts rest memory'

/-- The message of the only member, or the name and the messages of all members, whether they were
evaluated or not. -/
def composedMessage (group : RuleGroup) : String :=
  match group.rules with
  | [rule] => rule.message
  | rules =>
    group.name ++ ": " ++
      String.intercalate (" " ++ group.operator.word ++ " ") (rules.map (·.message))

/-- Whether the members decide for firing. An empty group never fires. -/
def fires (group : RuleGroup) (evaluator : Evaluator σ) (facts : Facts) (memory : σ) : Bool × σ :=
  match group.rules, group.operator with
  | [], _ => (false, memory)
  | rules, .all => allFire evaluator facts rules memory
  | rules, .any => anyFires evaluator facts rules memory

def evaluate (group : RuleGroup) (evaluator : Evaluator σ) (facts : Facts) (memory : σ) :
    GroupEvaluation × σ :=
  match group.fires evaluator facts memory with
  | (true, memory') => (⟨true, some group.composedMessage⟩, memory')
  | (false, memory') => (⟨false, none⟩, memory')

end RuleGroup

/-- A rule or a group. -/
inductive Item where
  | rule (rule : Rule)
  | group (group : RuleGroup)
deriving DecidableEq, Repr, Inhabited

namespace Item

def id : Item → String
  | rule r => r.id
  | group g => g.id

def name : Item → String
  | rule r => r.name
  | group g => g.name

def priority : Item → Int32
  | rule r => r.priority
  | group g => g.priority

def categories : Item → List Category
  | rule r => r.categories
  | group g => g.categories

/-- The message to report if the item fires. Only a single rule can fail; a group settles the
failures of its members. -/
def evaluate {σ : Type} (item : Item) (evaluator : Evaluator σ) (facts : Facts) (memory : σ) :
    Except EvalError (Option String) × σ :=
  match item with
  | rule r =>
    match r.evaluate evaluator facts memory with
    | (.ok true, memory') => (.ok (some r.message), memory')
    | (.ok false, memory') => (.ok none, memory')
    | (.error e, memory') => (.error e, memory')
  | group g =>
    let (outcome, memory') := g.evaluate evaluator facts memory
    (.ok outcome.message, memory')

end Item

end Rulebook
