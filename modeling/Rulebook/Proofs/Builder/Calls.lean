import Mathlib.Data.List.DropRight
import Rulebook.Proofs.Builder
import Rulebook.Registry

/-!
# What calls on a builder come to

A builder is changed by one call after the other, but what it builds can be read off the list of its
calls. Of most settings the last one counts. Categories are gathered from the last call that puts a
list in place of all others onwards; each name is kept where it first occurs, and a category given
by name takes the priority set before it, even if another is set later.
-/
namespace Rulebook

variable {α β : Type}

/-- The last of the values that some calls set. -/
def lastSet (value? : α → Option β) (calls : List α) : Option β := (calls.filterMap value?).getLast?

variable (value? : α → Option β)

theorem lastSet_append (calls calls' : List α) :
    lastSet value? (calls ++ calls') = (lastSet value? calls').or (lastSet value? calls) := by
  rw [lastSet, List.filterMap_append, List.getLast?_append, lastSet, lastSet]

@[simp] theorem lastSet_singleton (call : α) : lastSet value? [call] = value? call := by
  rw [lastSet, List.filterMap_cons]
  cases value? call <;> rfl

theorem lastSet_cons (call : α) (calls : List α) :
    lastSet value? (call :: calls) = (lastSet value? calls).or (value? call) := by
  rw [← List.singleton_append, lastSet_append, lastSet_singleton]

namespace Category

theorem sameName_comm (c d : Category) : c.sameName d = d.sameName c := Bool.beq_comm

/-- Those done already are kept as they are, and names known from them are not new. -/
theorem foldl_addNew (cs done : List Category) :
    cs.foldl addNew done =
      done ++ (cs.filter fun c => !done.any (·.sameName c)).eraseDupsBy sameName := by
  induction cs generalizing done with
  | nil => simp
  | cons c cs ih =>
    rw [List.foldl_cons, ih, addNew]
    cases hknown : done.any (·.sameName c) with
    | true => simp [hknown]
    | false =>
      have hrest : (cs.filter fun d => !(done ++ [c]).any (·.sameName d)) =
          (cs.filter fun d => !done.any (·.sameName d)).filter fun d => d.sameName c = false := by
        rw [List.filter_filter]
        refine List.filter_congr fun d _ => ?_
        simp [sameName_comm d, Bool.and_comm]
      rw [if_neg (by simp), hrest, List.filter_cons_of_pos (by simp [hknown]),
        List.eraseDupsBy_cons, List.append_assoc, List.singleton_append]

/-- Of every name the first category stays. -/
theorem dedup_eq_eraseDupsBy (cs : List Category) : dedup cs = cs.eraseDupsBy sameName := by
  have hall : (cs.filter fun c => !([] : List Category).any (·.sameName c)) = cs :=
    List.filter_eq_self.mpr fun _ _ => rfl
  rw [dedup, foldl_addNew, hall, List.nil_append]

end Category

namespace Setting

def id? : Setting → Option String
  | .id text => some text
  | _ => none

def name? : Setting → Option String
  | .name text => some text
  | _ => none

def description? : Setting → Option String
  | .description text => some text
  | _ => none

def priority? : Setting → Option Int32
  | .priority number => some number
  | _ => none

def fallback? : Setting → Option String
  | .fallback text => some text
  | _ => none

/-- The categories put in place of those added before. -/
def categories? : Setting → Option (List Category)
  | .categories cs => some cs
  | _ => none

/-- The priority in force after some settings. -/
def priorityAfter (settings : List Setting) : Int32 :=
  (lastSet priority? settings).getD defaultPriority

/-- The categories added one by one, in order, where a priority is in force at first. -/
def added (inForce : Int32) : List Setting → List Category
  | [] => []
  | .category c :: rest => c :: added inForce rest
  | .categoryNamed text :: rest => .named text inForce :: added inForce rest
  | .priority number :: rest => added number rest
  | _ :: rest => added inForce rest

/-- The categories put in place of earlier ones last, and those added since. -/
def gathered (settings : List Setting) : List Category :=
  let replaced := settings.rdropWhile (·.categories?.isNone)
  let since := settings.rtakeWhile (·.categories?.isNone)
  (lastSet categories? settings).getD [] ++ added (priorityAfter replaced) since

theorem added_append (inForce : Int32) (settings settings' : List Setting) :
    added inForce (settings ++ settings') =
      added inForce settings ++ added ((lastSet priority? settings).getD inForce) settings' := by
  induction settings generalizing inForce with
  | nil => rfl
  | cons setting settings ih =>
    rw [List.cons_append, lastSet_cons, Option.getD_or]
    cases setting with
    | priority number => exact ih number
    | category c => exact congrArg (c :: ·) (ih inForce)
    | categoryNamed text => exact congrArg (.named text inForce :: ·) (ih inForce)
    | _ => exact ih inForce

theorem gathered_concat {setting : Setting} (h : setting.categories? = none)
    (settings : List Setting) :
    gathered (settings ++ [setting]) =
      gathered settings ++ added (priorityAfter settings) [setting] := by
  have hlast : lastSet categories? (settings ++ [setting]) = lastSet categories? settings := by
    simp [lastSet_append, h]
  have hpriority : (lastSet priority? (settings.rtakeWhile (·.categories?.isNone))).getD
      (priorityAfter (settings.rdropWhile (·.categories?.isNone))) = priorityAfter settings := by
    rw [priorityAfter, priorityAfter, ← Option.getD_or, ← lastSet_append,
      List.rdropWhile_append_rtakeWhile]
  rw [gathered, gathered, hlast, List.rdropWhile_concat_pos _ _ _ (by simp [h]),
    List.rtakeWhile_concat_pos _ _ _ (by simp [h]), added_append, hpriority, List.append_assoc]

theorem gathered_concat_categories (settings : List Setting) (cs : List Category) :
    gathered (settings ++ [.categories cs]) = cs := by
  rw [gathered, List.rtakeWhile_concat_neg _ _ _ (by simp [categories?]), lastSet_append,
    lastSet_singleton]
  exact List.append_nil cs

/-- A category added is added behind those gathered. -/
theorem addNew_gathered {settings : List Setting} {setting : Setting} {c : Category}
    (h : setting.categories? = none) (hadded : added (priorityAfter settings) [setting] = [c]) :
    Category.addNew (Category.dedup (gathered settings)) c =
      Category.dedup (gathered (settings ++ [setting])) := by
  rw [gathered_concat h, hadded, Category.dedup, Category.dedup, List.foldl_append]
  rfl

theorem gathered_of_not_added {settings : List Setting} {setting : Setting}
    (h : setting.categories? = none) (hadded : added (priorityAfter settings) [setting] = []) :
    gathered (settings ++ [setting]) = gathered settings := by
  rw [gathered_concat h, hadded, List.append_nil]

end Setting

/-- The draft of a new builder after some settings. -/
structure Draft.Reflects (id : String) (settings : List Setting) (draft : Draft) : Prop where
  id : draft.id = (lastSet Setting.id? settings).getD id
  name : draft.name = lastSet Setting.name? settings
  description : draft.description = lastSet Setting.description? settings
  priority : draft.priority = Setting.priorityAfter settings
  fallback : draft.fallback = (lastSet Setting.fallback? settings).getD defaultCategory
  categories : draft.categories = Category.dedup (Setting.gathered settings)

namespace Draft

theorem reflects_new (id : String) : Reflects id [] { id } := ⟨rfl, rfl, rfl, rfl, rfl, rfl⟩

theorem Reflects.apply {id : String} {settings : List Setting} {draft : Draft}
    (h : draft.Reflects id settings) (setting : Setting) :
    (draft.apply setting).Reflects id (settings ++ [setting]) where
  id := by cases setting <;> simp [Draft.apply, lastSet_append, Setting.id?, h.id]
  name := by cases setting <;> simp [Draft.apply, lastSet_append, Setting.name?, h.name]
  description := by
    cases setting <;> simp [Draft.apply, lastSet_append, Setting.description?, h.description]
  priority := by
    cases setting <;>
      simp [Draft.apply, lastSet_append, Setting.priority?, Setting.priorityAfter, h.priority]
  fallback := by cases setting <;> simp [Draft.apply, lastSet_append, Setting.fallback?, h.fallback]
  categories := by
    cases setting with
    | category c =>
      rw [Draft.apply, h.categories]
      exact Setting.addNew_gathered rfl rfl
    | categoryNamed text =>
      rw [Draft.apply, h.categories, h.priority]
      exact Setting.addNew_gathered rfl rfl
    | categories cs => rw [Draft.apply, Setting.gathered_concat_categories]
    | id | name | description | priority | fallback =>
      rw [Setting.gathered_of_not_added rfl rfl, ← h.categories]
      rfl

end Draft

/-- What some settings on a new draft leave: the last id and the last priority, and of the
categories gathered the first of each name, or the fallback if there are none. -/
structure Setting.Leave (settings : List Setting) (id finalId : String) (priority : Int32)
    (categories : List Category) : Prop where
  id_eq : finalId = (lastSet id? settings).getD id
  priority_eq : priority = priorityAfter settings
  categories_eq : categories = if gathered settings = [] then
      [.named ((lastSet fallback? settings).getD defaultCategory) (priorityAfter settings)]
    else (gathered settings).eraseDupsBy Category.sameName
  nonempty : categories ≠ []
  distinct : DistinctNames categories

theorem Draft.Reflects.leave {id : String} {settings : List Setting} {draft : Draft}
    (h : draft.Reflects id settings) :
    Setting.Leave settings id draft.id draft.priority draft.finalCategories where
  id_eq := h.id
  priority_eq := h.priority
  categories_eq := by
    rw [Draft.finalCategories, h.categories, h.priority, h.fallback, Category.dedup_eq_eraseDupsBy]
    cases hgathered : Setting.gathered settings with
    | nil => rfl
    | cons c cs => simp [List.eraseDupsBy_cons]
  nonempty := by
    rw [Draft.finalCategories]
    split
    · exact List.cons_ne_nil _ _
    · next h => exact fun hnil => h (by rw [hnil]; rfl)
  distinct := Draft.distinctNames_final (h.categories ▸ Category.distinctNames_dedup _)

/-- What a registry sets on its builders. -/
def Config.seeds (config : Config) : List Setting :=
  [.priority config.priority, .fallback config.category]

namespace RuleBuilder

namespace Call

def setting? : Call → Option Setting
  | .set setting => some setting
  | _ => none

def condition? : Call → Option String
  | .condition source => some source
  | _ => none

def message? : Call → Option String
  | .message text => some text
  | _ => none

end Call

theorem reflects_applyAll (id : String) (calls : List Call) :
    ((withId id).applyAll calls).draft.Reflects id (calls.filterMap Call.setting?) ∧
      ((withId id).applyAll calls).condition = lastSet Call.condition? calls ∧
      ((withId id).applyAll calls).message = lastSet Call.message? calls := by
  induction calls using List.reverseRecOn with
  | nil => exact ⟨Draft.reflects_new id, rfl, rfl⟩
  | append_singleton calls call ih =>
    obtain ⟨draft, condition, message⟩ := ih
    rw [applyAll, List.foldl_append, List.filterMap_append, lastSet_append, lastSet_append]
    cases call with
    | set setting => exact ⟨draft.apply setting, condition, message⟩
    | condition source => exact ⟨(List.append_nil _).symm ▸ draft, rfl, message⟩
    | message text => exact ⟨(List.append_nil _).symm ▸ draft, condition, rfl⟩

theorem newRule_eq (registry : Registry) (id : String) :
    registry.newRule id = (withId id).applyAll (registry.config.seeds.map .set) := rfl

end RuleBuilder

namespace GroupBuilder

namespace Call

def setting? : Call → Option Setting
  | .set setting => some setting
  | _ => none

def operator? : Call → Option GroupOperator
  | .operator value => some value
  | _ => none

end Call

theorem reflects_applyAll (id : String) (calls : List Call) :
    ((withId id).applyAll calls).draft.Reflects id (calls.filterMap Call.setting?) ∧
      ((withId id).applyAll calls).operator = (lastSet Call.operator? calls).getD .all := by
  induction calls using List.reverseRecOn with
  | nil => exact ⟨Draft.reflects_new id, rfl⟩
  | append_singleton calls call ih =>
    obtain ⟨draft, operator⟩ := ih
    rw [applyAll, List.foldl_append, List.filterMap_append, lastSet_append]
    cases call with
    | set setting => exact ⟨draft.apply setting, operator⟩
    | operator value => exact ⟨(List.append_nil _).symm ▸ draft, rfl⟩

theorem newGroup_eq (registry : Registry) (id : String) :
    registry.newGroup id = (withId id).applyAll (registry.config.seeds.map .set) := rfl

end GroupBuilder

/-- What a builder builds, from its calls alone. It reports the first mandatory text whose last
setting is missing or empty, under the last id. Otherwise the texts are those set last, the message
stands in for a description that is missing or empty, and the settings on the draft leave the rest.
A builder from a registry is a new one on which the settings of the registry are called first. -/
theorem build_of_calls (id : String) :
    (∀ calls : List RuleBuilder.Call,
      let settings := calls.filterMap RuleBuilder.Call.setting?
      let name := lastSet Setting.name? settings
      let condition := lastSet RuleBuilder.Call.condition? calls
      let message := lastSet RuleBuilder.Call.message? calls
      let built := ((RuleBuilder.withId id).applyAll calls).build
      (∀ e, built = .error e ↔ ∃ field,
        firstMissing [(name, .name), (condition, .condition), (message, .message)] = some field ∧
          e = .rule ((lastSet Setting.id? settings).getD id) field) ∧
      ∀ rule, built = .ok rule →
        name = some rule.name ∧ condition = some rule.condition ∧ message = some rule.message ∧
        rule.description = (present? (lastSet Setting.description? settings)).getD rule.message ∧
        Setting.Leave settings id rule.id rule.priority rule.categories) ∧
    (∀ calls : List GroupBuilder.Call,
      let settings := calls.filterMap GroupBuilder.Call.setting?
      let name := lastSet Setting.name? settings
      let description := lastSet Setting.description? settings
      let built := ((GroupBuilder.withId id).applyAll calls).build
      (∀ e, built = .error e ↔ ∃ field,
        firstMissing [(name, .name), (description, .description)] = some field ∧
          e = .group ((lastSet Setting.id? settings).getD id) field) ∧
      ∀ group, built = .ok group →
        name = some group.name ∧ description = some group.description ∧
        group.operator = (lastSet GroupBuilder.Call.operator? calls).getD .all ∧
        group.members = .empty ∧
        Setting.Leave settings id group.id group.priority group.categories) ∧
    ∀ registry : Registry,
      (∀ calls, (registry.newRule id).applyAll calls =
        (RuleBuilder.withId id).applyAll (registry.config.seeds.map .set ++ calls)) ∧
      ∀ calls, (registry.newGroup id).applyAll calls =
        (GroupBuilder.withId id).applyAll (registry.config.seeds.map .set ++ calls) := by
  refine ⟨fun calls => ?_, fun calls => ?_, fun registry => ⟨fun calls => ?_, fun calls => ?_⟩⟩
  · obtain ⟨draft, hcondition, hmessage⟩ := RuleBuilder.reflects_applyAll id calls
    intro settings name condition message built
    refine ⟨fun e => ?_, fun rule hbuilt => ?_⟩
    · rw [RuleBuilder.build_eq_error, draft.name, draft.id, hcondition, hmessage]
    · obtain ⟨n, c, m, hn, hc, hm, rfl⟩ := RuleBuilder.of_build_eq_ok hbuilt
      exact ⟨draft.name.symm.trans ((present?_eq_some.mp hn).1),
        hcondition.symm.trans ((present?_eq_some.mp hc).1),
        hmessage.symm.trans ((present?_eq_some.mp hm).1), by rw [draft.description], draft.leave⟩
  · obtain ⟨draft, hoperator⟩ := GroupBuilder.reflects_applyAll id calls
    intro settings name description built
    refine ⟨fun e => ?_, fun group hbuilt => ?_⟩
    · rw [GroupBuilder.build_eq_error, draft.name, draft.id, draft.description]
    · obtain ⟨n, d, hn, hd, rfl⟩ := GroupBuilder.of_build_eq_ok hbuilt
      exact ⟨draft.name.symm.trans ((present?_eq_some.mp hn).1),
        draft.description.symm.trans ((present?_eq_some.mp hd).1), hoperator, rfl, draft.leave⟩
  · rw [RuleBuilder.newRule_eq, RuleBuilder.applyAll, RuleBuilder.applyAll, RuleBuilder.applyAll,
      List.foldl_append]
  · rw [GroupBuilder.newGroup_eq, GroupBuilder.applyAll, GroupBuilder.applyAll,
      GroupBuilder.applyAll, List.foldl_append]

/-- A name given before the priority keeps the default one, and the same name given later is not
added again. -/
example :
    let calls := [.name "n", .description "d", .categoryNamed "a", .priority 7, .categoryNamed "b",
      .categoryNamed "a"].map GroupBuilder.Call.set
    (((GroupBuilder.withId "g").applyAll calls).build.map RuleGroup.categories) =
      .ok [.named "a" defaultPriority, .named "b" 7] := by decide

end Rulebook
