import Mathlib.Data.List.Sort
import Mathlib.Data.Prod.Lex
import Mathlib.Data.String.Basic
import Rulebook.Proofs.KeyMap
import Rulebook.Proofs.Registry.Failures
import Rulebook.Proofs.Registry.Lookup

/-!
# Known categories

Categories become known by many calls, and the first one introduced under a name stays. What a run
of calls introduces is read off its history, in order, and the known category of a name is the first
of that name in this list. The order of categories ties nothing in a listing because no name is
known twice.
-/
namespace Rulebook

namespace Category

/-- Strictly before: a lower sequence number, or the same one and a smaller name. -/
def Precedes (a b : Category) : Prop :=
  a.sequence < b.sequence ∨ a.sequence = b.sequence ∧ a.name < b.name

/-- What the order of categories goes by. -/
def rank (c : Category) : ℤ ×ₗ String := toLex (c.sequence.toInt, c.name)

variable {a b : Category} {cs ds : List Category}

theorem precedes_iff : a.Precedes b ↔ a.rank < b.rank := by
  rw [Precedes, rank, rank, Prod.Lex.toLex_lt_toLex, Int32.lt_iff_toInt_lt, Int32.toInt_inj]

theorem Precedes.ne (h : a.Precedes b) : a ≠ b := by
  rintro rfl
  exact lt_irrefl _ (precedes_iff.mp h)

theorem notAfter_iff : a.notAfter b ↔ a.rank ≤ b.rank := by
  rw [notAfter, order, Ordering.isLE_then_iff_or, rank, rank, Prod.Lex.toLex_le_toLex,
    compare_lt_iff_lt, compare_eq_iff_eq, Ordering.isLE_iff_ne_gt, ← ne_eq, compare_le_iff_le]

theorem pairwise_sort (distinct : DistinctNames cs) : (sort cs).Pairwise Precedes := by
  have hsorted : (sort cs).Pairwise (fun a b => a.notAfter b) := by
    refine List.pairwise_mergeSort (fun a b c => ?_) (fun a b => ?_) cs
    · simpa only [notAfter_iff] using le_trans
    · simpa only [Bool.or_eq_true, notAfter_iff] using le_total a.rank b.rank
  have hnames : (sort cs).Pairwise (fun a b => a.name ≠ b.name) :=
    List.pairwise_map.mp (((List.mergeSort_perm cs notAfter).map name).nodup_iff.mpr distinct)
  refine hsorted.imp₂ (fun a b hle hne => ?_) hnames
  refine precedes_iff.mpr (lt_of_le_of_ne (notAfter_iff.mp hle) fun heq => hne ?_)
  exact congrArg Prod.snd (toLex.injective heq)

/-- Categories of distinct names are sorted the same way in whatever order they come. -/
theorem sort_eq_of_perm (distinct : DistinctNames cs) (h : ds.Perm cs) : sort ds = sort cs := by
  have hdistinct : DistinctNames ds := (h.map name).nodup_iff.mpr distinct
  refine List.Perm.eq_of_pairwise (fun a b _ _ hab hba => ?_)
    (pairwise_sort hdistinct) (pairwise_sort distinct) ?_
  · exact absurd (precedes_iff.mp hba) (precedes_iff.mp hab).asymm
  · exact (List.mergeSort_perm ds notAfter).trans (h.trans (List.mergeSort_perm cs notAfter).symm)

end Category

/-- The categories that the calls introduce after the given history, in their order. -/
def introductions (config : Config) (past : History) : List Operation → List Category
  | [] => []
  | operation :: operations =>
    past.introduced config operation ++
      introductions config (past ++ (past.next? operation).toList) operations

/-- What the registry knows under a name is the first category of that name in the list. -/
def Interned (registry : Registry) (cs : List Category) : Prop :=
  ∀ name, registry.category? name = cs.find? (·.name == name)

variable {registry registry' : Registry} {cs ds : List Category}

theorem Effect.config {event : Option Event} (effect : Effect registry event ds registry') :
    registry'.config = registry.config := by
  cases effect with
  | item => exact Registry.register_config _ _
  | addition | category | nothing => rfl

namespace Interned

theorem of_categories (h : Interned registry cs)
    (heq : registry'.categories = registry.categories) : Interned registry' cs := fun name => by
  rw [Registry.category?, heq, ← h name, Registry.category?]

theorem registerCategory (h : Interned registry cs) (c : Category) :
    Interned (registry.registerCategory c) (cs ++ [c]) := fun name => by
  rw [Registry.category?_registerCategory, List.find?_append, h, h]
  by_cases hname : name = c.name
  · subst hname
    cases cs.find? (·.name == c.name) <;> simp
  · simp [hname, Ne.symm hname]

/-- Listing under categories makes them known in their order. -/
theorem foldl_enlist (h : Interned registry cs) (priority : Int32) (m : Member) :
    Interned (ds.foldl (Registry.enlist priority m) registry) (cs ++ ds) := by
  induction ds generalizing registry cs with
  | nil => simpa using h
  | cons d ds ih =>
    have hd : Interned (Registry.enlist priority m registry d) (cs ++ [d]) :=
      (h.registerCategory d).of_categories rfl
    simpa using ih hd

theorem step (h : Interned registry cs) {event : Option Event}
    (effect : Effect registry event ds registry') : Interned registry' (cs ++ ds) := by
  cases effect with
  | @item e i registered =>
    refine foldl_enlist (h.of_categories ?_) _ _
    split <;> simp
  | addition | nothing =>
    rw [List.append_nil]
    exact h.of_categories rfl
  | category c => exact h.registerCategory c

theorem foldl_perform (h : Interned registry cs) {past : History} (recalls : Recalls registry past)
    (operations : List Operation) :
    Interned (operations.foldl Registry.perform registry)
      (cs ++ introductions registry.config past operations) := by
  induction operations generalizing registry past cs with
  | nil => simpa [introductions] using h
  | cons operation operations ih =>
    have effect := recalls.effect operation
    have hrest := ih (h.step effect) (recalls.perform operation)
    rwa [effect.config, List.append_assoc] at hrest

theorem name_eq (h : Interned registry cs) {name : String} {c : Category}
    (hc : registry.category? name = some c) : c.name = name := by
  rw [h] at hc
  simpa using List.find?_some hc

/-- Every category is stored under its own name. -/
theorem distinctNames (h : Interned registry cs) :
    DistinctNames registry.categories.values := by
  have hkeys : registry.categories.values.map Category.name = registry.categories.keys := by
    rw [KeyMap.values, List.map_map, KeyMap.keys, Entries.keys]
    exact List.map_congr_left fun e he => h.name_eq (KeyMap.mem_entries.mp he)
  rw [DistinctNames, hkeys]
  exact registry.categories.nodup_keys

theorem mem_allCategories (h : Interned registry cs) {c : Category} :
    c ∈ registry.allCategories ↔ registry.category? c.name = some c := by
  rw [Registry.allCategories, Category.sort, List.mem_mergeSort, KeyMap.values, List.mem_map]
  constructor
  · rintro ⟨⟨name, c⟩, he, rfl⟩
    have hc : registry.category? name = some c := KeyMap.mem_entries.mp he
    rwa [h.name_eq hc]
  · exact fun hc => ⟨(c.name, c), KeyMap.mem_entries.mpr hc, rfl⟩

theorem pairwise_allCategories (h : Interned registry cs) :
    registry.allCategories.Pairwise Category.Precedes := Category.pairwise_sort h.distinctNames

/-- The listing has one entry for every known name and none for any other. -/
theorem filter_allCategories (h : Interned registry cs) (name : String) :
    registry.allCategories.filter (·.name == name) = (registry.category? name).toList := by
  have hnodup : registry.allCategories.Nodup := h.pairwise_allCategories.imp Category.Precedes.ne
  have hmem (c : Category) : c ∈ registry.allCategories.filter (·.name == name) ↔
      registry.category? name = some c := by
    rw [List.mem_filter, h.mem_allCategories, beq_iff_eq]
    constructor
    · rintro ⟨hc, rfl⟩
      exact hc
    · intro hc
      obtain rfl := h.name_eq hc
      exact ⟨hc, rfl⟩
  cases hc : registry.category? name with
  | none => exact List.eq_nil_iff_forall_not_mem.mpr fun c => by simp [hmem, hc]
  | some c =>
    refine List.perm_singleton.mp ?_
    refine (List.perm_ext_iff_of_nodup (hnodup.filter _) (List.nodup_singleton c)).mpr fun d => ?_
    rw [hmem, hc, List.mem_singleton, Option.some.injEq, eq_comm]

end Interned

theorem interned_empty (config : Config) : Interned (.empty config) [] := fun _ => rfl

theorem interned_run (config : Config) (operations : List Operation) :
    Interned (Registry.run config operations) (introductions config [] operations) :=
  (interned_empty config).foldl_perform (recalls_empty config) operations

/-- Calls that register nothing and name no category: additions to groups, and combinations and
groups that fail. Lookups are not among them because they return no registry at all. -/
inductive Idle (registry : Registry) : Operation → Prop
  | addToGroup (groupId ruleId : String) (number : Int32) :
      Idle registry (.addToGroup groupId ruleId number)
  | combine {operator : GroupOperator} {ids : List String} {builder : RuleBuilder}
      {e : CombineError} (failed : (registry.combineRegistered operator ids builder).1 = .error e) :
      Idle registry (.combine operator ids builder)
  | createGroup {operator : GroupOperator} {builder : GroupBuilder} {e : BuildError}
      (failed : (registry.createGroup operator builder).1 = .error e) :
      Idle registry (.createGroup operator builder)

theorem Idle.categories {operation : Operation} (h : Idle registry operation) :
    (registry.perform operation).categories = registry.categories := by
  cases h with
  | addToGroup groupId ruleId number =>
    rw [Registry.perform, Registry.addToGroup]
    cases registry.rule? ruleId <;> cases registry.group? groupId <;> rfl
  | combine failed => rw [Registry.perform, Registry.combineRegistered_of_error failed]
  | createGroup failed => rw [Registry.perform, Registry.createGroup_of_error failed]

/-- After any calls the category known under a name is the first of that name that was introduced,
and it stays so whatever is called later. Additions to groups and calls that fail make nothing
known. The listing has one entry for every known name, strictly ascends by sequence number and name,
and is the same in whatever order the stored categories come. -/
theorem run_interns_first (config : Config) (operations : List Operation) :
    let registry := Registry.run config operations
    (∀ name, registry.category? name =
        (introductions config [] operations).find? (·.name == name)) ∧
      (∀ later name c, registry.category? name = some c →
        (Registry.run config (operations ++ later)).category? name = some c) ∧
      (∀ operation, Idle registry operation →
        (registry.perform operation).categories = registry.categories) ∧
      (∀ name, registry.allCategories.filter (·.name == name) =
        (registry.category? name).toList) ∧
      registry.allCategories.Pairwise Category.Precedes ∧
      ∀ stored : List Category, stored.Perm registry.categories.values →
        Category.sort stored = registry.allCategories := by
  intro registry
  have h : Interned registry (introductions config [] operations) := interned_run config operations
  refine ⟨h, fun later name c hc => ?_, fun _ => Idle.categories, h.filter_allCategories,
    h.pairwise_allCategories, fun _ => Category.sort_eq_of_perm h.distinctNames⟩
  have hlater := h.foldl_perform (recalls_run config operations) later
  rw [Registry.run, List.foldl_append]
  refine (hlater name).trans ?_
  rw [List.find?_append, ← h, hc, Option.some_or]

/-- A category of a rule is known before the name alone, and a later one of the name is not taken. -/
example :
    let rule : Rule := ⟨"i", [⟨"c", "first", 5⟩], "n", "a", "m", "m", 5⟩
    (Registry.run {} [.registerRule rule, .intern "c", .intern "b", .registerCategory ⟨"c", "", 1⟩,
      .combine .all ["j"] (.withId "k")]).allCategories = [⟨"c", "first", 5⟩, .named "b" 100] := by
  cbv

end Rulebook
