import Rulebook.Condition.Eval

/-!
# Evaluators

An evaluator answers a source and facts with a value or an error, and may keep a memory from one
call to the next. The plain one parses every time, the caching one remembers the trees of the
sources that parse, and a recording one keeps the list of the sources it was handed.
-/
namespace Rulebook

open Condition

/-- The value of a condition given by its source. -/
def Condition.evaluate (source : String) (facts : Facts) : Except EvalError Value :=
  match parse source with
  | .error e => .error (.parse e)
  | .ok e => e.eval facts

/-- An evaluator with a memory of type `σ`. -/
def Evaluator (σ : Type) : Type := String → Facts → σ → Except EvalError Value × σ

namespace Evaluator

variable {σ : Type}

/-- An evaluator that depends on nothing but source and facts. -/
def ofFunction (f : String → Facts → Except EvalError Value) : Evaluator σ :=
  fun source facts memory => (f source facts, memory)

@[simp] theorem ofFunction_apply (f : String → Facts → Except EvalError Value) (source : String)
    (facts : Facts) (memory : σ) :
    ofFunction f source facts memory = (f source facts, memory) := rfl

/-- Parse the source on every call. -/
def plain : Evaluator σ := ofFunction Condition.evaluate

/-- Keep the sources handed to an evaluator, in order. -/
def recording (evaluator : Evaluator σ) : Evaluator (σ × List String) :=
  fun source facts (memory, seen) =>
    let (result, memory') := evaluator source facts memory
    (result, (memory', seen ++ [source]))

@[simp] theorem recording_apply (evaluator : Evaluator σ) (source : String) (facts : Facts)
    (memory : σ) (seen : List String) :
    recording evaluator source facts (memory, seen) =
      ((evaluator source facts memory).1, (evaluator source facts memory).2, seen ++ [source]) :=
  rfl

end Evaluator

/-- Trees of sources that parsed. -/
structure Cache extends KeyMap String Expr
deriving Inhabited

namespace Cache

def empty : Cache := ⟨.empty⟩

def get? (cache : Cache) (source : String) : Option Expr := cache.toKeyMap.get? source

def insert (cache : Cache) (source : String) (e : Expr) : Cache :=
  ⟨KeyMap.insert source e cache.toKeyMap⟩

@[simp] theorem get?_insert_self (cache : Cache) (source : String) (e : Expr) :
    (cache.insert source e).get? source = some e := by simp [get?, insert]

theorem get?_insert_of_ne {source source' : String} (h : source' ≠ source) (cache : Cache)
    (e : Expr) : (cache.insert source e).get? source' = cache.get? source' := by
  simp [get?, insert, KeyMap.get?_insert_of_ne h]

/-- The cached sources. -/
def sources (cache : Cache) : List String := cache.keys

end Cache

namespace Evaluator

/-- Parse each source at most once. A source that does not parse is not remembered. -/
def caching : Evaluator Cache := fun source facts cache =>
  match cache.get? source with
  | some e => (e.eval facts, cache)
  | none =>
    match parse source with
    | .error e => (.error (.parse e), cache)
    | .ok e => (e.eval facts, cache.insert source e)

theorem caching_of_cached {cache : Cache} {source : String} {e : Expr}
    (h : cache.get? source = some e) (facts : Facts) :
    caching source facts cache = (e.eval facts, cache) := by simp [caching, h]

/-- Caching where there is a cache, plain where there is none. -/
def configured : Evaluator (Option Cache) := fun source facts memory =>
  match memory with
  | none => (Condition.evaluate source facts, none)
  | some cache =>
    let (result, cache') := caching source facts cache
    (result, some cache')

end Evaluator

end Rulebook
