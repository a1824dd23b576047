import Mathlib.Data.List.DropRight
import Mathlib.Data.String.Basic
import Rulebook.Proofs.Evaluation.Traces
import Rulebook.Proofs.KeyMap

/-!
# What a cache remembers

A run of a caching evaluator is a list of evaluations and of calls that empty the cache. After any
run the cache holds the trees of the sources that were evaluated since it was last emptied, as far
as they parse. That a source is found or not found there makes no difference to the answers.
-/
namespace Rulebook

open Condition

namespace Cache

/-- A call on a caching evaluator. -/
inductive Call where
  | evaluate (source : String) (facts : Facts)
  | clear

namespace Call

/-- The answer of an evaluation, and the cache after the call. -/
def perform (cache : Cache) : Call → Option (Except EvalError Value) × Cache
  | evaluate source facts =>
    let (result, cache') := Evaluator.caching source facts cache
    (some result, cache')
  | clear => (none, .empty)

/-- The answer of the plain evaluator. -/
def plainAnswer : Call → Option (Except EvalError Value)
  | evaluate source facts => some (Evaluator.plain source facts ()).1
  | clear => none

/-- The source that is evaluated. -/
def source? : Call → Option String
  | evaluate source _ => some source
  | clear => none

end Call

/-- The answers to some calls on an empty cache, and the cache after them. -/
def run (calls : List Call) : List (Option (Except EvalError Value)) × Cache :=
  calls.foldl (fun (answers, cache) call =>
    let (answer, cache') := call.perform cache
    (answers ++ [answer], cache')) ([], .empty)

/-- The sources evaluated behind the last call that empties the cache. -/
def sinceClear (calls : List Call) : List String :=
  (calls.rtakeWhile fun call => call.source?.isSome).filterMap Call.source?

section Concat

variable (calls : List Call) (call : Call)

theorem run_concat : run (calls ++ [call]) =
    ((run calls).1 ++ [(call.perform (run calls).2).1], (call.perform (run calls).2).2) := by
  simp [run]

theorem sinceClear_concat_evaluate (source : String) (facts : Facts) :
    sinceClear (calls ++ [.evaluate source facts]) = sinceClear calls ++ [source] := by
  rw [sinceClear, List.rtakeWhile_concat_pos _ _ _ rfl, List.filterMap_append]
  rfl

theorem sinceClear_concat_clear : sinceClear (calls ++ [.clear]) = [] := by
  rw [sinceClear, List.rtakeWhile_concat_neg _ _ _ (by simp [Call.source?])]
  rfl

end Concat

/-- The cache holds the trees of the given sources as far as they parse, and nothing else. -/
structure Remembers (cache : Cache) (sources : List String) : Prop where
  get? : ∀ source e, cache.get? source = some e ↔ source ∈ sources ∧ parse source = .ok e

theorem remembers_empty : Remembers .empty [] :=
  ⟨fun source e => by simp [Cache.get?, empty]⟩

/-- The cache with the tree of a source, if the source has one. -/
def remember (cache : Cache) (source : String) : Cache :=
  match parse source with
  | .ok e => cache.insert source e
  | .error _ => cache

theorem remember_of_not_parsed {source : String} (hparse : (parse source).isOk = false)
    (cache : Cache) : cache.remember source = cache := by
  unfold remember
  cases hp : parse source with
  | error e => rfl
  | ok e => simp [hp, Except.isOk, Except.toBool] at hparse

namespace Remembers

variable {cache : Cache} {sources : List String} (h : cache.Remembers sources)
include h

theorem parse_of_mem {entry : String × Expr} (hentry : entry ∈ cache.entries) :
    parse entry.1 = .ok entry.2 :=
  ((h.get? entry.1 entry.2).mp (KeyMap.mem_entries.mp hentry)).2

theorem mem_sources (source : String) :
    source ∈ cache.sources ↔ source ∈ sources.filter fun source => (parse source).isOk := by
  have hsome : source ∈ cache.sources ↔ ∃ e, cache.get? source = some e := by
    rw [← Option.isSome_iff_exists]
    exact (KeyMap.get?_isSome source cache.toKeyMap).symm
  simp only [hsome, h.get?, exists_and_left, List.mem_filter]
  cases parse source <;> simp [Except.isOk, Except.toBool]

theorem size_eq :
    cache.size = (sources.filter fun source => (parse source).isOk).dedup.length :=
  KeyMap.size_eq fun source => by
    rw [← h.mem_sources]
    exact KeyMap.get?_isSome source cache.toKeyMap

/-- With a tree found or a tree parsed the answer is the same, and so is the cache afterwards. -/
theorem caching_eq (source : String) (facts : Facts) :
    Evaluator.caching source facts cache =
      (Condition.evaluate source facts, cache.remember source) := by
  cases hcached : cache.get? source with
  | some e =>
    have hparse := ((h.get? source e).mp hcached).2
    have hsame : cache.insert source e = cache :=
      congrArg Cache.mk (KeyMap.insert_eq_self hcached)
    rw [Evaluator.caching_of_cached hcached, Condition.evaluate, remember, hparse]
    simp only [hsame]
  | none =>
    simp only [Evaluator.caching, hcached, Condition.evaluate, remember]
    cases parse source <;> rfl

theorem remember (source : String) : (cache.remember source).Remembers (sources ++ [source]) := by
  unfold Cache.remember
  cases hparse : parse source with
  | error err =>
    refine ⟨fun source' e' => ?_⟩
    rw [h.get?, List.mem_append, List.mem_singleton]
    refine and_congr_left fun hok => ⟨.inl, ?_⟩
    rintro (hsource | rfl)
    · exact hsource
    · simp [hparse] at hok
  | ok e =>
    refine ⟨fun source' e' => ?_⟩
    by_cases heq : source' = source
    · subst heq
      simp [hparse]
    · simp [get?_insert_of_ne heq, h.get?, heq]

end Remembers

/-- What a cache holds after a run, and that it answered as if it held nothing. -/
theorem remembers_run (calls : List Call) :
    (run calls).2.Remembers (sinceClear calls) ∧
      (run calls).1 = calls.map Call.plainAnswer := by
  induction calls using List.reverseRecOn with
  | nil => exact ⟨remembers_empty, rfl⟩
  | append_singleton calls call ih =>
    obtain ⟨remembers, answers⟩ := ih
    rw [run_concat, List.map_append, answers]
    cases call with
    | evaluate source facts =>
      rw [sinceClear_concat_evaluate]
      simp only [Call.perform, remembers.caching_eq]
      refine ⟨remembers.remember source, ?_⟩
      simp [Call.plainAnswer, Evaluator.plain]
    | clear =>
      rw [sinceClear_concat_clear]
      exact ⟨remembers_empty, rfl⟩

end Cache

namespace Evaluator

/-- Every source of the cache is remembered with its tree. -/
theorem answers_caching : caching.Answers Condition.evaluate fun cache =>
    ∃ sources, cache.Remembers sources where
  result := fun ⟨_, h⟩ source facts => by rw [h.caching_eq]
  sound := fun ⟨sources, h⟩ source facts => by
    rw [h.caching_eq]
    exact ⟨sources ++ [source], h.remember source⟩

/-- With a cache or without one, the answers are those of the plain evaluator. -/
theorem answers_configured : configured.Answers Condition.evaluate fun memory =>
    ∀ cache ∈ memory, ∃ sources, cache.Remembers sources where
  result {memory} hm source facts := by
    cases memory with
    | none => rfl
    | some cache => exact answers_caching.result (hm cache rfl) source facts
  sound {memory} hm source facts := by
    cases memory with
    | none => exact fun cache hcache => by simp [configured] at hcache
    | some cache =>
      intro cache' hcache'
      obtain rfl : (caching source facts cache).2 = cache' := by simpa [configured] using hcache'
      exact answers_caching.sound (hm cache rfl) source facts

end Evaluator

end Rulebook
