import Mathlib.Data.String.Basic
import Rulebook.Proofs.Evaluation.Comparisons
import Rulebook.Proofs.Json.Reading
import Rulebook.Proofs.KeyMap

/-!
# Values as JSON trees

The tree of a value does not say which kind the value is of. The kinds are asked in the order of
their declaration, and the first that the tree fits takes it: a number is an integer if it can be
one and a float otherwise. A value without floats is written as a tree that has it for its meaning,
unless it nests too deep; then the tree has none.
-/
namespace Rulebook

namespace Value

mutual

/-- How deep lists and maps nest in the value. -/
def depth : Value → Nat
  | list items => depthItems items + 1
  | map entries => depthEntries entries + 1
  | _ => 0

def depthItems : List Value → Nat
  | [] => 0
  | v :: rest => max (depth v) (depthItems rest)

def depthEntries : List (String × Value) → Nat
  | [] => 0
  | (_, v) :: rest => max (depth v) (depthEntries rest)

end

theorem depthItems_le_iff {items : List Value} {n : Nat} :
    depthItems items ≤ n ↔ ∀ v ∈ items, v.depth ≤ n := by
  induction items with
  | nil => simp [depthItems]
  | cons v items ih => simp [depthItems, ih]

theorem depthEntries_le_iff {entries : List (String × Value)} {n : Nat} :
    depthEntries entries ≤ n ↔ ∀ e ∈ entries, e.2.depth ≤ n := by
  induction entries with
  | nil => simp [depthEntries]
  | cons e entries ih => simp [depthEntries, ih]

/-- The maps in the value are maps: their keys ascend. -/
inductive InKeyOrder : Value → Prop
  | null : InKeyOrder .null
  | bool (b : Bool) : InKeyOrder (.bool b)
  | int (n : Int64) : InKeyOrder (.int n)
  | float (x : Float) : InKeyOrder (.float x)
  | string (s : String) : InKeyOrder (.string s)
  | list {items : List Value} (h : ∀ v ∈ items, InKeyOrder v) : InKeyOrder (.list items)
  | map {entries : List (String × Value)} (ascending : Entries.Ascending entries)
      (h : ∀ e ∈ entries, InKeyOrder e.2) : InKeyOrder (.map entries)

end Value

namespace Json

open Decimal Reader

section Kinds

variable (depth : Nat)

@[simp] theorem valueOf?_null : valueOf? depth .null = some .null := by
  cases depth <;> rfl

@[simp] theorem valueOf?_bool (b : Bool) : valueOf? depth (.bool b) = some (.bool b) := by
  cases depth <;> rfl

/-- A number is asked for an integer before it is asked for a float. -/
theorem valueOf?_number (n : Numeral) :
    valueOf? depth (.number n) =
      (n.toInt?.map fun i => .int (Int64.ofInt i)).or
        (n.magnitude?.map fun x => .float (if n.negative then -x else x)) := by
  cases depth <;> simp only [valueOf?, kinds, List.findSome?, fitted?] <;>
    cases n.toInt? <;> cases n.magnitude? <;> rfl

@[simp] theorem valueOf?_string (s : String) :
    valueOf? depth (.string (some s)) = some (.string s) := by
  cases depth <;> rfl

@[simp] theorem valueOf?_array_zero (items : List Tree) : valueOf? 0 (.array items) = none := rfl

theorem valueOf?_array (items : List Tree) :
    valueOf? (depth + 1) (.array items) = (items.mapM (valueOf? depth)).map .list := by
  simp only [valueOf?, kinds, List.findSome?, fitted?, Option.bind_eq_bind, Option.bind_some]
  cases items.mapM (valueOf? depth) <;> rfl

@[simp] theorem valueOf?_object_zero (fields : List (Option String × Tree)) :
    valueOf? 0 (.object fields) = none := rfl

theorem valueOf?_object (fields : List (Option String × Tree)) :
    valueOf? (depth + 1) (.object fields) =
      (fields.mapM (entryOf? (valueOf? depth))).map fun entries =>
        .map (Entries.ofList entries) := by
  simp only [valueOf?, kinds, List.findSome?, fitted?, Option.bind_eq_bind, Option.bind_some]
  cases fields.mapM (entryOf? (valueOf? depth)) <;> rfl

end Kinds

theorem toInt?_ofInt {n : Int} (lower : -0x8000000000000000 ≤ n) (upper : n < 0x8000000000000000) :
    (Numeral.ofInt n).toInt? = some n := by
  have integral : (Numeral.ofInt n).integral = true := rfl
  unfold Numeral.toInt?
  rw [integral]
  simp only [Numeral.ofInt, natOfChars_natChars, decide_eq_true_eq, Bool.not_true,
    Bool.false_eq_true, if_false]
  split
  · rw [if_pos (by omega)]
    exact congrArg some (by omega)
  · rw [if_pos (by omega)]
    exact congrArg some (by omega)

@[simp] theorem valueOf?_ofInt (depth : Nat) (n : Int64) :
    valueOf? depth (.number (.ofInt n.toInt)) = some (.int n) := by
  have lower := n.le_toInt
  have upper := n.toInt_lt
  simp [valueOf?_number, toInt?_ofInt lower upper]

theorem int32?_ofInt (n : Int32) : int32? (.number (.ofInt n.toInt)) = some n := by
  have lower := n.le_toInt
  have upper := n.toInt_lt
  simp only [int32?, toInt?_ofInt (n := n.toInt) (by omega) (by omega), Option.bind_eq_bind,
    Option.bind_some]
  rw [if_pos (by omega), Int32.ofInt_toInt]

theorem itemsChars_eq (items : List Value) :
    itemsChars items = List.intercalate [','] (items.map valueChars) := by
  induction items with
  | nil => rfl
  | cons v items ih =>
    cases items with
    | nil => simp [itemsChars]
    | cons w rest =>
      rw [itemsChars, ih, List.map_cons, List.map_cons, intercalate_cons, intercalate_cons]
      rfl

theorem entriesChars_eq (entries : List (String × Value)) :
    entriesChars entries = List.intercalate [',']
      (entries.map fun e => Quoted.encode e.1.toList ++ ':' :: valueChars e.2) := by
  induction entries with
  | nil => rfl
  | cons e entries ih =>
    cases entries with
    | nil => simp [entriesChars]
    | cons d rest =>
      rw [entriesChars, ih, List.map_cons, List.map_cons, intercalate_cons, intercalate_cons]
      simp

theorem valueChars_list (items : List Value) :
    valueChars (.list items) =
      '[' :: (List.intercalate [','] (items.map valueChars) ++ [']']) := by
  rw [valueChars, itemsChars_eq]

/-- A map is written like a record. -/
theorem valueChars_map (entries : List (String × Value)) :
    valueChars (.map entries) = objectChars (entries.map fun e => (e.1, valueChars e.2)) := by
  rw [valueChars, entriesChars_eq, objectChars, List.map_map]
  rfl

/-- The text of the value is read as the tree, which has the value for its meaning if it does not
nest too deep. -/
structure Depicts (tree : Tree) (v : Value) : Prop where
  reads : Reads (valueChars v) tree
  decodes : ∀ depth, valueOf? depth tree = if v.depth ≤ depth then some v else none

theorem mapM_valueOf? {items : List Value} {trees : List Tree}
    (h : List.Forall₂ (fun v tree => Depicts tree v) items trees) (depth : Nat) :
    trees.mapM (valueOf? depth) =
      if Value.depthItems items ≤ depth then some items else none := by
  induction h with
  | nil => simp [Value.depthItems]
  | cons first _ ih =>
    rw [List.mapM_cons, first.decodes, ih, Value.depthItems]
    grind

theorem mapM_entryOf? {entries : List (String × Value)} {fields : List (Option String × Tree)}
    (h : List.Forall₂ (fun e f => f.1 = some e.1 ∧ Depicts f.2 e.2) entries fields) (depth : Nat) :
    fields.mapM (entryOf? (valueOf? depth)) =
      if Value.depthEntries entries ≤ depth then some entries else none := by
  induction h with
  | nil => simp [Value.depthEntries]
  | @cons e f entries fields first _ ih =>
    obtain ⟨key, v⟩ := e
    obtain ⟨_, tree⟩ := f
    obtain ⟨rfl, first⟩ := first
    have hfirst : entryOf? (valueOf? depth) (some key, tree) =
        if v.depth ≤ depth then some (key, v) else none := by
      rw [entryOf?, first.decodes]
      split <;> rfl
    rw [List.mapM_cons, hfirst, ih, Value.depthEntries]
    grind

/-- What each member has one of, all of them have a list of. -/
theorem exists_forall₂ {α β : Type} {R : α → β → Prop} {as : List α}
    (h : ∀ a ∈ as, ∃ b, R a b) : ∃ bs, List.Forall₂ R as bs := by
  induction as with
  | nil => exact ⟨[], .nil⟩
  | cons a as ih =>
    obtain ⟨⟨b, hb⟩, has⟩ := List.forall_mem_cons.mp h
    obtain ⟨bs, hbs⟩ := ih has
    exact ⟨b :: bs, .cons hb hbs⟩

/-- Each kind is written so that no kind declared before it fits. -/
theorem exists_depicts {v : Value} (ordered : v.InKeyOrder) (free : v.FloatFree) :
    ∃ tree, Depicts tree v := by
  induction ordered with
  | null => exact ⟨.null, reads_null, by simp [Value.depth]⟩
  | bool b => exact ⟨.bool b, reads_boolChars b, by simp [Value.depth]⟩
  | int n =>
    exact ⟨.number (.ofInt n.toInt), reads_intChars n.toInt, by simp [Value.depth]⟩
  | float x => cases free
  | string s => exact ⟨.string (some s), reads_string s, by simp [Value.depth]⟩
  | list _ ih =>
    cases free with
    | list free =>
      obtain ⟨trees, h⟩ := exists_forall₂ fun v hv => ih v hv (free v hv)
      refine ⟨.array trees, ?_, fun depth => ?_⟩
      · rw [valueChars_list]
        exact reads_array (List.forall₂_map_left_iff.mpr (h.imp fun _ _ h => h.reads))
      · cases depth with
        | zero => simp [Value.depth]
        | succ depth =>
          simp only [valueOf?_array, mapM_valueOf? h, Value.depth, Nat.add_le_add_iff_right]
          split <;> rfl
  | @map entries ascending _ ih =>
    cases free with
    | map free =>
      have each : ∀ e ∈ entries, ∃ f : Option String × Tree, f.1 = some e.1 ∧ Depicts f.2 e.2 := by
        intro e he
        obtain ⟨tree, h⟩ := ih e he (free e he)
        exact ⟨(some e.1, tree), rfl, h⟩
      obtain ⟨fields, h⟩ := exists_forall₂ each
      refine ⟨.object fields, ?_, fun depth => ?_⟩
      · rw [valueChars_map]
        exact reads_objectChars
          (List.forall₂_map_left_iff.mpr (h.imp fun _ _ h => ⟨h.1, h.2.reads⟩))
      · cases depth with
        | zero => simp [Value.depth]
        | succ depth =>
          simp only [valueOf?_object, mapM_entryOf? h, Value.depth, Nat.add_le_add_iff_right]
          split
          -- the fields stand in key order already, so that the map made of them is the same
          · exact congrArg some (congrArg Value.map ascending.ofList_eq)
          · rfl

/-- What a list is made into is made of its members. -/
theorem exists_of_mem_mapM {α β : Type} {f : α → Option β} {as : List α} {bs : List β}
    (h : as.mapM f = some bs) : ∀ b ∈ bs, ∃ a, f a = some b := by
  induction as generalizing bs with
  | nil =>
    obtain rfl : [] = bs := by simpa using h
    simp
  | cons a as ih =>
    simp only [List.mapM_cons, Option.bind_eq_bind, Option.bind_eq_some_iff] at h
    obtain ⟨b, hb, bs', hbs, h⟩ := h
    obtain rfl : b :: bs' = bs := by simpa using h
    exact List.forall_mem_cons.mpr ⟨⟨a, hb⟩, ih hbs⟩

/-- Whichever kind takes a tree, of parts in key order it makes a value in key order, one level
deeper at most. -/
theorem inKeyOrder_of_fitted? {part? : Option (Tree → Option Value)} {n : Nat}
    (parts : ∀ part ∈ part?, ∃ m < n, ∀ tree v, part tree = some v → v.InKeyOrder ∧ v.depth ≤ m)
    {kind : Kind} {tree : Tree} {v : Value} (h : fitted? part? kind tree = some v) :
    v.InKeyOrder ∧ v.depth ≤ n := by
  unfold fitted? at h
  split at h
  · obtain rfl := Option.some.inj h
    exact ⟨.null, Nat.zero_le _⟩
  · obtain rfl := Option.some.inj h
    exact ⟨.bool _, Nat.zero_le _⟩
  · obtain ⟨i, -, rfl⟩ := Option.map_eq_some_iff.mp h
    exact ⟨.int _, Nat.zero_le _⟩
  · obtain ⟨x, -, rfl⟩ := Option.map_eq_some_iff.mp h
    exact ⟨.float _, Nat.zero_le _⟩
  · obtain ⟨s, -, rfl⟩ := Option.map_eq_some_iff.mp h
    exact ⟨.string s, Nat.zero_le _⟩
  · obtain ⟨part, hpart, h⟩ := Option.bind_eq_some_iff.mp h
    obtain ⟨values, hvalues, h⟩ := Option.bind_eq_some_iff.mp h
    obtain rfl := Option.some.inj h
    obtain ⟨m, hm, parts⟩ := parts part hpart
    have each (v : Value) (hv : v ∈ values) : v.InKeyOrder ∧ v.depth ≤ m := by
      obtain ⟨tree, htree⟩ := exists_of_mem_mapM hvalues v hv
      exact parts tree v htree
    have hdepth : Value.depthItems values ≤ m :=
      Value.depthItems_le_iff.mpr fun v hv => (each v hv).2
    exact ⟨.list fun v hv => (each v hv).1, Nat.succ_le_of_lt (Nat.lt_of_le_of_lt hdepth hm)⟩
  · obtain ⟨part, hpart, h⟩ := Option.bind_eq_some_iff.mp h
    obtain ⟨entries, hentries, h⟩ := Option.bind_eq_some_iff.mp h
    obtain rfl := Option.some.inj h
    obtain ⟨m, hm, parts⟩ := parts part hpart
    have each (e : String × Value) (he : e ∈ Entries.ofList entries) :
        e.2.InKeyOrder ∧ e.2.depth ≤ m := by
      obtain ⟨field, hfield⟩ := exists_of_mem_mapM hentries e (Entries.mem_of_mem_ofList he)
      obtain ⟨key, -, h⟩ := Option.bind_eq_some_iff.mp hfield
      obtain ⟨value, hvalue, h⟩ := Option.bind_eq_some_iff.mp h
      obtain rfl := Option.some.inj h
      exact parts field.2 value hvalue
    have hdepth : Value.depthEntries (Entries.ofList entries) ≤ m :=
      Value.depthEntries_le_iff.mpr fun e he => (each e he).2
    exact ⟨.map Entries.ascending_ofList fun e he => (each e he).1,
      Nat.succ_le_of_lt (Nat.lt_of_le_of_lt hdepth hm)⟩
  · exact nomatch h

/-- What is read has its keys in order, in whatever order they stood, and nests no deeper than it
may. -/
theorem inKeyOrder_of_valueOf? {depth : Nat} {tree : Tree} {v : Value}
    (h : valueOf? depth tree = some v) : v.InKeyOrder ∧ v.depth ≤ depth := by
  induction depth generalizing tree v with
  | zero =>
    obtain ⟨kind, -, hkind⟩ := List.exists_of_findSome?_eq_some h
    exact inKeyOrder_of_fitted? (by simp) hkind
  | succ depth ih =>
    obtain ⟨kind, -, hkind⟩ := List.exists_of_findSome?_eq_some h
    refine inKeyOrder_of_fitted? (fun part hpart => ⟨depth, Nat.lt_succ_self depth, ?_⟩) hkind
    obtain rfl := Option.some.inj hpart
    exact fun tree v => ih

end Json

end Rulebook
