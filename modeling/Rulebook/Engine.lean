import Rulebook.Registry

/-!
# Execution

Items are evaluated in order and the first that fires is reported. An item that fails to evaluate
is passed over. The report of a detailed execution names what was evaluated and what failed.
-/
namespace Rulebook

open Condition

/-- What kind of outcome a result records. -/
inductive ResultType where
  | fired | noMatch | noRules | failed
deriving DecidableEq, Repr

def ResultType.word : ResultType → String
  | .fired => "MATCH"
  | .noMatch => "NO_MATCH"
  | .noRules => "NO_RULES"
  | .failed => "ERROR"

/-- The outcome of one execution: who is reported, and with what message. -/
structure Verdict where
  ruleName : String
  message : String
  type : ResultType
deriving DecidableEq, Repr

namespace Verdict

def matched (name message : String) : Verdict := ⟨name, message, .fired⟩

def noMatch : Verdict := ⟨"no-match", "No matching rules found", .noMatch⟩

def noRules : Verdict := ⟨"no-rule", "No rules provided", .noRules⟩

def failure (name message : String) : Verdict := ⟨name, message, .failed⟩

def triggered (v : Verdict) : Bool := v.type == .fired

def text (v : Verdict) : String := v.ruleName ++ ": " ++ v.message

end Verdict

/-- What is recorded of an execution on the way: the items evaluated and the failures among them. -/
structure Diagnostics where
  evaluated : List String := []
  errors : List (String × String) := []
deriving DecidableEq, Repr

namespace Diagnostics

/-- One more item was evaluated. -/
def visit (d : Diagnostics) (name : String) : Diagnostics :=
  { d with evaluated := d.evaluated ++ [name] }

/-- One more item failed. -/
def fail (d : Diagnostics) (name : String) (e : EvalError) : Diagnostics :=
  { d with errors := d.errors ++ [(name, e.message)] }

end Diagnostics

/-- The result of an execution with the names evaluated and the failures passed over. -/
structure Report where
  result : Verdict
  evaluated : List String
  errors : List (String × String)
deriving DecidableEq, Repr

namespace Report

def of (result : Verdict) (d : Diagnostics) : Report := ⟨result, d.evaluated, d.errors⟩

def bracketed (names : List String) : String := "[" ++ String.intercalate ", " names ++ "]"

def text (r : Report) : String :=
  s!"result: {r.result.ruleName} ({r.result.type.word}), evaluated: " ++ bracketed r.evaluated ++
    (if r.errors.isEmpty then "" else ", errors: " ++ bracketed (r.errors.map Prod.fst))

end Report

namespace Execution

variable {σ : Type} (evaluator : Evaluator σ) (facts : Facts)

/-- The first item that fires, if any does. Diagnostics are kept where there are some to start
from. -/
def firstFiring : List Item → Option Diagnostics → σ → Verdict × Option Diagnostics × σ
  | [], diagnostics, memory => (.noMatch, diagnostics, memory)
  | item :: rest, diagnostics, memory =>
    let visited := diagnostics.map (·.visit item.name)
    match item.evaluate evaluator facts memory with
    | (.ok (some message), memory') => (.matched item.name message, visited, memory')
    | (.ok none, memory') => firstFiring rest visited memory'
    | (.error e, memory') => firstFiring rest (visited.map (·.fail item.name e)) memory'

/-- The first item that fires, with or without diagnostics. -/
def firstMatch (items : List Item) (diagnostics : Option Diagnostics) (memory : σ) :
    Verdict × Option Diagnostics × σ :=
  if items.isEmpty then (.noRules, diagnostics, memory)
  else firstFiring evaluator facts items diagnostics memory

/-- Report the first item that fires. -/
def run (items : List Item) (memory : σ) : Verdict × σ :=
  let (verdict, _, memory') := firstMatch evaluator facts items none memory
  (verdict, memory')

/-- Report the first item that fires, with everything evaluated on the way. -/
def runDetailed (items : List Item) (memory : σ) : Report × σ :=
  let (verdict, diagnostics, memory') := firstMatch evaluator facts items (some {}) memory
  (.of verdict (diagnostics.getD {}), memory')

def runRules (rules : List Rule) (memory : σ) : Verdict × σ :=
  run evaluator facts (rules.map .rule) memory

def runGroups (groups : List RuleGroup) (memory : σ) : Verdict × σ :=
  run evaluator facts (groups.map .group) memory

/-- Execute what a registry lists under a category. -/
def runCategory (registry : Registry) (category : String) (memory : σ) : Verdict × σ :=
  run evaluator facts (registry.itemsIn category) memory

/-- The name under which a free-standing expression is reported. -/
def expressionName : String := "Expression"

/-- What the value of a free-standing expression is reported as: `false` and `null` are no match,
everything else is one. -/
def expressionVerdict (source : String) : Except EvalError Value → Verdict
  | .ok (.bool true) => .matched expressionName ("Expression evaluated to true: " ++ source)
  | .ok (.bool false) => .noMatch
  | .ok .null => .noMatch
  | .ok _ => .matched expressionName ("Expression evaluated successfully: " ++ source)
  | .error e => .failure expressionName ("Error evaluating expression: " ++ e.message)

/-- Evaluate a free-standing expression into a result. -/
def runExpression (source : String) (memory : σ) : Verdict × σ :=
  let (value, memory') := evaluator source facts memory
  (expressionVerdict source value, memory')

end Execution

/-- A registry and an evaluator that caches if the settings ask for it. -/
structure Engine where
  registry : Registry
  cache : Option Cache
deriving Inhabited

namespace Engine

/-- The memory of the evaluator that the settings ask for. -/
def initialCache (config : Config) : Option Cache :=
  if config.cacheExpressions then some .empty else none

def ofRegistry (registry : Registry) : Engine := ⟨registry, initialCache registry.config⟩

end Engine

end Rulebook
