import Rulebook.Proofs.Evaluation.Caching
import Rulebook.Proofs.Execution
import Rulebook.Proofs.Registry.History

/-!
# Engines with and without a cache

An engine caches if the settings of its registry ask for it. Nothing but the evaluator reads that
setting, and the evaluator answers alike either way, so two engines that differ only in it go
through any run with the same answers.
-/
namespace Rulebook

open Condition

namespace Registry

/-- The registry with caching asked for or not. -/
def withCaching (caching : Bool) (registry : Registry) : Registry :=
  { registry with config := { registry.config with cacheExpressions := caching } }

section WithCaching

variable (registry : Registry) (caching : Bool)

theorem rule?_withCaching (id : String) :
    (registry.withCaching caching).rule? id = registry.rule? id := rfl

theorem foldl_enlist_withCaching (priority : Int32) (member : Member) (cs : List Category) :
    cs.foldl (enlist priority member) (registry.withCaching caching) =
      (cs.foldl (enlist priority member) registry).withCaching caching :=
  List.foldl_hom (withCaching caching) fun _ _ => rfl

theorem register_withCaching (item : Item) :
    (registry.withCaching caching).register item =
      (registry.register item).withCaching caching := by
  have hitem : (registry.withCaching caching).item? item.member = registry.item? item.member := rfl
  have hstore : (registry.withCaching caching).store item =
      (registry.store item).withCaching caching := by cases item <;> rfl
  simp only [register, hitem, hstore, ← foldl_enlist_withCaching]
  split <;> rfl

theorem resolve_withCaching (ids : List String) :
    (registry.withCaching caching).resolve ids = registry.resolve ids := by
  induction ids with
  | nil => rfl
  | cons id ids ih => simp only [resolve, rule?_withCaching, ih]

/-- A call changes the registry in the same way whether or not caching is asked for. -/
theorem perform_withCaching (operation : Operation) :
    (registry.withCaching caching).perform operation =
      (registry.perform operation).withCaching caching := by
  cases operation with
  | registerRule rule => exact register_withCaching registry caching (.rule rule)
  | registerGroup group => exact register_withCaching registry caching (.group group)
  | intern | registerCategory => rfl
  | combine operator ids builder =>
    simp only [perform, combineRegistered, resolve_withCaching]
    cases registry.resolve ids with
    | error e => rfl
    | ok rules =>
      cases hrule : Rulebook.combine operator rules builder with
      | error e => simp only [hrule]
      | ok rule =>
        simp only [hrule]
        exact register_withCaching registry caching (.rule rule)
  | createGroup operator builder =>
    simp only [perform, createGroup]
    cases (builder.apply (.operator operator)).build with
    | error e => rfl
    | ok group => exact register_withCaching registry caching (.group group)
  | addToGroup groupId ruleId number =>
    have hgroup : (registry.withCaching caching).group? groupId = registry.group? groupId := rfl
    simp only [perform, addToGroup, rule?_withCaching, hgroup]
    cases registry.rule? ruleId with
    | none => rfl
    | some rule => cases registry.group? groupId <;> rfl

end WithCaching

end Registry

namespace Engine

/-- A call on an engine, or on its registry. -/
inductive Call where
  | execute (items : List Item) (facts : Facts)
  | executeRules (rules : List Rule) (facts : Facts)
  | executeGroups (groups : List RuleGroup) (facts : Facts)
  | executeCategory (category : String) (facts : Facts)
  | executeDetailed (items : List Item) (facts : Facts)
  | evaluate (source : String) (facts : Facts)
  | expression (source : String) (facts : Facts)
  | change (operation : Operation)

/-- What a call answers. -/
inductive Answer where
  | verdict (verdict : Verdict)
  | report (report : Report)
  | value (value : Except EvalError Value)
  | changed

namespace Call

/-- The answer of a call under an evaluator. -/
def answer {σ : Type} (evaluator : Evaluator σ) (registry : Registry) (memory : σ) :
    Call → Answer × σ
  | execute items facts =>
    (Execution.run evaluator facts items memory).map .verdict id
  | executeRules rules facts =>
    (Execution.runRules evaluator facts rules memory).map .verdict id
  | executeGroups groups facts =>
    (Execution.runGroups evaluator facts groups memory).map .verdict id
  | executeCategory category facts =>
    (Execution.runCategory evaluator facts registry category memory).map .verdict id
  | executeDetailed items facts =>
    (Execution.runDetailed evaluator facts items memory).map .report id
  | evaluate source facts => (evaluator source facts memory).map .value id
  | expression source facts =>
    (Execution.runExpression evaluator facts source memory).map .verdict id
  | change _ => (.changed, memory)

/-- The registry after a call. -/
def registryAfter (registry : Registry) : Call → Registry
  | change operation => registry.perform operation
  | execute .. | executeRules .. | executeGroups .. | executeCategory .. | executeDetailed ..
  | evaluate .. | expression .. => registry

end Call

/-- The answer of a call, and the engine after it. -/
def perform (engine : Engine) (call : Call) : Answer × Engine :=
  let (answer, cache) := call.answer .configured engine.registry engine.cache
  (answer, ⟨call.registryAfter engine.registry, cache⟩)

/-- The answers to some calls, and the engine after them. -/
def run (engine : Engine) : List Call → List Answer × Engine
  | [] => ([], engine)
  | call :: calls =>
    let (answer, engine') := engine.perform call
    let (answers, engine'') := engine'.run calls
    (answer :: answers, engine'')

end Engine

namespace Evaluator.Answers

variable {σ : Type} {evaluator : Evaluator σ} {f : String → Facts → Except EvalError Value}
  {Sound : σ → Prop} {memory : σ}

/-- A call answers as it does under the function. -/
theorem call (h : evaluator.Answers f Sound) (hm : Sound memory) (registry : Registry)
    (call : Engine.Call) :
    (call.answer evaluator registry memory).1 = (call.answer (.ofFunction f) registry ()).1 ∧
      Sound (call.answer evaluator registry memory).2 := by
  have hpure : Answers (.ofFunction f : Evaluator Unit) f fun _ => True := answers_ofFunction
  cases call with
  | execute | executeRules | executeGroups | executeCategory =>
    simp only [Engine.Call.answer, Execution.runRules, Execution.runGroups, Execution.runCategory,
      h.run hm, hpure.run trivial]
    exact ⟨rfl, h.afterAll hm _ _⟩
  | executeDetailed =>
    simp only [Engine.Call.answer, h.runDetailed hm, hpure.runDetailed trivial]
    exact ⟨rfl, h.afterAll hm _ _⟩
  | evaluate source facts =>
    exact ⟨congrArg Engine.Answer.value (h.result hm source facts), h.sound hm source facts⟩
  | expression source facts =>
    exact ⟨congrArg (Engine.Answer.verdict ∘ Execution.expressionVerdict source)
      (h.result hm source facts), h.sound hm source facts⟩
  | change => exact ⟨rfl, hm⟩

end Evaluator.Answers

namespace Engine

/-- What the cache of the engine holds are the trees of sources that parse. -/
def Sound (engine : Engine) : Prop := ∀ cache ∈ engine.cache, ∃ sources, cache.Remembers sources

theorem sound_ofRegistry (registry : Registry) : (ofRegistry registry).Sound := by
  intro cache hcache
  unfold ofRegistry initialCache at hcache
  split at hcache
  · obtain rfl : Cache.empty = cache := by simpa using hcache
    exact ⟨[], Cache.remembers_empty⟩
  · simp at hcache

/-- Two sound engines whose registries differ at most in whether caching is asked for. -/
structure Alike (engine engine' : Engine) : Prop where
  registry : engine.registry.withCaching true = engine'.registry.withCaching true
  sound : engine.Sound
  sound' : engine'.Sound

namespace Alike

variable {engine engine' : Engine}

/-- The answer of a call depends on nothing in which the engines may differ. -/
theorem perform (h : Alike engine engine') (call : Call) :
    (engine.perform call).1 = (engine'.perform call).1 ∧
      Alike (engine.perform call).2 (engine'.perform call).2 := by
  have hcall := Evaluator.answers_configured.call h.sound engine.registry call
  have hcall' := Evaluator.answers_configured.call h.sound' engine'.registry call
  have hplain (registry : Registry) :
      call.answer (.ofFunction Condition.evaluate) (registry.withCaching true) () =
        call.answer (.ofFunction Condition.evaluate) registry () := by
    cases call <;> rfl
  have hregistry (registry : Registry) :
      call.registryAfter (registry.withCaching true) =
        (call.registryAfter registry).withCaching true := by
    cases call with
    | change operation => exact Registry.perform_withCaching registry true operation
    | _ => rfl
  refine ⟨?_, ?_, hcall.2, hcall'.2⟩
  · calc (engine.perform call).1
      _ = (call.answer (.ofFunction Condition.evaluate) engine.registry ()).1 := hcall.1
      _ = (call.answer (.ofFunction Condition.evaluate) engine'.registry ()).1 := by
        rw [← hplain, h.registry, hplain]
      _ = (engine'.perform call).1 := hcall'.1.symm
  · calc (call.registryAfter engine.registry).withCaching true
      _ = (call.registryAfter engine'.registry).withCaching true := by
        rw [← hregistry, h.registry, hregistry]

theorem run (h : Alike engine engine') (calls : List Call) :
    (engine.run calls).1 = (engine'.run calls).1 ∧
      Alike (engine.run calls).2 (engine'.run calls).2 := by
  induction calls generalizing engine engine' with
  | nil => exact ⟨rfl, h⟩
  | cons call calls ih =>
    obtain ⟨answer, alike⟩ := h.perform call
    obtain ⟨answers, alike'⟩ := ih alike
    exact ⟨congrArg₂ List.cons answer answers, alike'⟩

end Alike

theorem alike_withCaching (registry : Registry) :
    Alike (ofRegistry (registry.withCaching true)) (ofRegistry (registry.withCaching false)) :=
  ⟨rfl, sound_ofRegistry _, sound_ofRegistry _⟩

end Engine

/-- A run of the caching evaluator answers as the plain one does. The cache holds, each once and
with its tree, the sources that parse among those evaluated since it was last emptied. Engines that
differ only in whether they cache give the same answers in any run. -/
theorem caching_transparent :
    (∀ calls : List Cache.Call,
      (Cache.run calls).1 = calls.map Cache.Call.plainAnswer ∧
      (∀ entry ∈ (Cache.run calls).2.entries, parse entry.1 = .ok entry.2) ∧
      (∀ source, source ∈ (Cache.run calls).2.sources ↔
        source ∈ Cache.sinceClear calls ∧ (parse source).isOk) ∧
      (Cache.run calls).2.sources.Nodup ∧
      (Cache.run calls).2.size =
        ((Cache.sinceClear calls).filter fun source => (parse source).isOk).dedup.length ∧
      ∀ source facts, (parse source).isOk = false →
        (Cache.run (calls ++ [.evaluate source facts])).2 = (Cache.run calls).2) ∧
    ∀ (registry : Registry) (calls : List Engine.Call),
      let cached := (Engine.ofRegistry (registry.withCaching true)).run calls
      let uncached := (Engine.ofRegistry (registry.withCaching false)).run calls
      cached.1 = uncached.1 ∧
        cached.2.registry.withCaching true = uncached.2.registry.withCaching true := by
  constructor
  · intro calls
    obtain ⟨remembers, answers⟩ := Cache.remembers_run calls
    refine ⟨answers, fun entry => remembers.parse_of_mem, fun source => ?_,
      (Cache.run calls).2.nodup_keys, remembers.size_eq, fun source facts hparse => ?_⟩
    · rw [remembers.mem_sources, List.mem_filter]
    · rw [Cache.run_concat, Cache.Call.perform, remembers.caching_eq]
      exact Cache.remember_of_not_parsed hparse _
  · intro registry calls
    obtain ⟨answers, alike⟩ := (Engine.alike_withCaching registry).run calls
    exact ⟨answers, alike.registry⟩

end Rulebook
