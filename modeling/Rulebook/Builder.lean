import Rulebook.Rule

/-!
# Builders and settings

A builder collects settings one call at a time and is checked when it is built. Both builders share
the settings that rules and groups have in common. The settings of a registry give the defaults of
its builders, number the categories known by name only, and say whether conditions are cached.
-/
namespace Rulebook

/-- Priority of what sets none. -/
def defaultPriority : Int32 := 100

/-- Category of what is given none. -/
def defaultCategory : String := "default"

structure Config where
  /-- priority handed to builders -/
  priority : Int32 := defaultPriority
  /-- category handed to builders -/
  category : String := defaultCategory
  /-- sequence number of categories known by name only -/
  categoryPriority : Int32 := defaultPriority
  /-- whether each distinct condition is parsed once -/
  cacheExpressions : Bool := false
deriving DecidableEq, Repr, Inhabited

/-- Settings common to rules and groups. -/
structure Draft where
  id : String
  /-- the categories added so far, one of each name -/
  categories : List Category := []
  /-- the category taken if none is added -/
  fallback : String := defaultCategory
  name : Option String := none
  description : Option String := none
  priority : Int32 := defaultPriority
deriving DecidableEq, Repr, Inhabited

/-- A setting common to rules and groups. -/
inductive Setting where
  | id (id : String)
  | name (name : String)
  | description (description : String)
  | priority (priority : Int32)
  | category (c : Category)
  /-- a category by name, numbered by the priority set so far -/
  | categoryNamed (name : String)
  /-- these categories in place of those added before -/
  | categories (cs : List Category)
  | fallback (name : String)
deriving DecidableEq, Repr

namespace Draft

def apply (draft : Draft) : Setting → Draft
  | .id id => { draft with id }
  | .name name => { draft with name := some name }
  | .description description => { draft with description := some description }
  | .priority priority => { draft with priority }
  | .category c => { draft with categories := Category.addNew draft.categories c }
  | .categoryNamed name =>
    { draft with categories := Category.addNew draft.categories (.named name draft.priority) }
  | .categories cs => { draft with categories := Category.dedup cs }
  | .fallback fallback => { draft with fallback }

/-- Settings that a registry hands to its builders. -/
def configured (draft : Draft) (config : Config) : Draft :=
  { draft with priority := config.priority, fallback := config.category }

/-- The categories of the result: the fallback if none was added. -/
def finalCategories (draft : Draft) : List Category :=
  if draft.categories.isEmpty then [.named draft.fallback draft.priority] else draft.categories

end Draft

/-- A mandatory setting that is missing. -/
inductive MissingField where
  | name | condition | message | description
deriving DecidableEq, Repr

def MissingField.word : MissingField → String
  | .name => "name"
  | .condition => "condition"
  | .message => "message"
  | .description => "description"

/-- Why a builder builds nothing. -/
inductive BuildError where
  | rule (id : String) (field : MissingField)
  | group (id : String) (field : MissingField)
deriving DecidableEq, Repr

def BuildError.message : BuildError → String
  | .rule id field => s!"rule '{id}' is missing its {field.word}"
  | .group id field => s!"rule group '{id}' is missing its {field.word}"

/-- A text that is set and not empty. -/
def present? : Option String → Option String
  | some s => if s.isEmpty then none else some s
  | none => none

/-- A mandatory text, or the error that it is missing. -/
def required (value : Option String) (missing : BuildError) : Except BuildError String :=
  match present? value with
  | some s => .ok s
  | none => .error missing

/-- A rule in the making. -/
structure RuleBuilder where
  draft : Draft
  condition : Option String := none
  message : Option String := none
deriving DecidableEq, Repr, Inhabited

namespace RuleBuilder

inductive Call where
  | set (setting : Setting)
  | condition (source : String)
  | message (text : String)
deriving DecidableEq, Repr

def withId (id : String) : RuleBuilder := { draft := { id } }

def apply (builder : RuleBuilder) : Call → RuleBuilder
  | .set setting => { builder with draft := builder.draft.apply setting }
  | .condition source => { builder with condition := some source }
  | .message text => { builder with message := some text }

def applyAll (builder : RuleBuilder) (calls : List Call) : RuleBuilder := calls.foldl apply builder

/-- The rule, if name, condition and message are there. The message also describes a rule without
a description. -/
def build (builder : RuleBuilder) : Except BuildError Rule := do
  let draft := builder.draft
  let name ← required draft.name (.rule draft.id .name)
  let condition ← required builder.condition (.rule draft.id .condition)
  let message ← required builder.message (.rule draft.id .message)
  .ok {
    id := draft.id
    categories := draft.finalCategories
    name
    condition
    message
    description := (present? draft.description).getD message
    priority := draft.priority }

end RuleBuilder

/-- A group in the making. -/
structure GroupBuilder where
  draft : Draft
  operator : GroupOperator := .all
deriving DecidableEq, Repr, Inhabited

namespace GroupBuilder

inductive Call where
  | set (setting : Setting)
  | operator (operator : GroupOperator)
deriving DecidableEq, Repr

def withId (id : String) : GroupBuilder := { draft := { id } }

def apply (builder : GroupBuilder) : Call → GroupBuilder
  | .set setting => { builder with draft := builder.draft.apply setting }
  | .operator operator => { builder with operator }

def applyAll (builder : GroupBuilder) (calls : List Call) : GroupBuilder :=
  calls.foldl apply builder

/-- An empty group, if name and description are there. -/
def build (builder : GroupBuilder) : Except BuildError RuleGroup := do
  let draft := builder.draft
  let name ← required draft.name (.group draft.id .name)
  let description ← required draft.description (.group draft.id .description)
  .ok {
    id := draft.id
    categories := draft.finalCategories
    name
    description
    priority := draft.priority
    operator := builder.operator
    members := .empty }

end GroupBuilder

end Rulebook
