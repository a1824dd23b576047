import Mathlib.Data.List.Dedup
import Mathlib.Data.List.Induction
import Rulebook.KeyMap

/-!
# Maps in key order

No key is stored twice, so the size of a map is the number of its different keys and every entry is
found under its key. Different keys may be inserted in either order. A map made of pairs holds the
last pair of every key.
-/
namespace Rulebook

variable {κ α : Type} [LT κ]

namespace Entries

variable {m pairs : List (κ × α)}

section Bindings

variable [DecidableEq κ] [DecidableLT κ]

/-- Binding a key leaves every other entry where it stands. -/
theorem filter_insert (k : κ) (v : α) (m : List (κ × α)) :
    (insert k v m).filter (·.1 ≠ k) = m.filter (·.1 ≠ k) := by
  induction m with
  | nil => simp [insert]
  | cons d m ih =>
    obtain ⟨k', v'⟩ := d
    simp only [insert]
    split
    · simp
    · split
      · next heq => simp [heq]
      · rw [List.filter_cons, List.filter_cons, ih]

theorem ofList_concat (pairs : List (κ × α)) (e : κ × α) :
    ofList (pairs ++ [e]) = insert e.1 e.2 (ofList pairs) := by simp [ofList]

/-- The last pair of a key stays. -/
theorem get?_ofList (k : κ) :
    get? k (ofList pairs) = ((pairs.filter (·.1 = k)).getLast?).map Prod.snd := by
  induction pairs using List.reverseRecOn with
  | nil => rfl
  | append_singleton pairs e ih =>
    rw [ofList_concat, List.filter_append]
    by_cases hk : e.1 = k
    · subst hk
      simp
    · simp [hk, get?_insert_of_ne (Ne.symm hk), ih]

end Bindings

variable [LE κ] [Std.LawfulOrderLT κ]

theorem Ascending.nodup (hm : Ascending m) : (keys m).Nodup :=
  (List.pairwise_map.mpr hm).imp Std.ne_of_lt

variable [DecidableEq κ]

/-- Every entry is found under its key. -/
theorem Ascending.mem_iff (hm : Ascending m) {k : κ} {v : α} :
    (k, v) ∈ m ↔ get? k m = some v := by
  induction m with
  | nil => simp
  | cons d m ih =>
    obtain ⟨k', v'⟩ := d
    obtain ⟨hhead, htail⟩ := List.pairwise_cons.mp hm
    rw [get?_cons, List.mem_cons, ih htail]
    by_cases hk : k = k'
    · subst hk
      have hfree : get? k m ≠ some v := fun h =>
        Std.lt_irrefl (hhead (k, v) ((ih htail).mpr h))
      simp [hfree, eq_comm]
    · simp [hk]

/-- There are as many entries as there are keys with a value. -/
theorem Ascending.length_eq (hm : Ascending m) {ks : List κ}
    (h : ∀ k, (get? k m).isSome ↔ k ∈ ks) : m.length = ks.dedup.length := by
  have hperm : (keys m).Perm ks.dedup :=
    (List.perm_ext_iff_of_nodup hm.nodup ks.nodup_dedup).mpr fun k => by
      rw [← get?_isSome, h, List.mem_dedup]
  simpa [keys] using hperm.length_eq

variable [DecidableLT κ]

/-- A later binding of a key hides an earlier one entirely. -/
@[simp] theorem insert_insert_self (k : κ) (v w : α) (m : List (κ × α)) :
    insert k w (insert k v m) = insert k w m := by
  induction m with
  | nil => simp [insert, Std.lt_irrefl]
  | cons e m ih =>
    obtain ⟨k', v'⟩ := e
    simp only [insert]
    split
    · simp [insert, Std.lt_irrefl]
    · split
      · simp [insert, Std.lt_irrefl]
      · rename_i h h'
        simp [insert, h, h', ih]

/-- Binding a key to the value that it has changes nothing. -/
theorem Ascending.insert_eq_self (hm : Ascending m) {k : κ} {v : α} (h : get? k m = some v) :
    Entries.insert k v m = m := by
  induction m with
  | nil => exact nomatch h
  | cons d m ih =>
    obtain ⟨k', v'⟩ := d
    obtain ⟨hhead, htail⟩ := List.pairwise_cons.mp hm
    rw [get?_cons] at h
    by_cases hk : k = k'
    · subst hk
      obtain rfl : v' = v := by simpa using h
      simp [Entries.insert, Std.lt_irrefl]
    · rw [if_neg hk] at h
      have hlt : k' < k := hhead (k, v) ((Ascending.mem_iff htail).mpr h)
      rw [Entries.insert, if_neg (Std.not_gt_of_lt hlt), if_neg hk, ih htail h]

/-- Only a new key adds an entry. -/
theorem Ascending.length_insert (hm : Ascending m) (k : κ) (v : α) :
    (Entries.insert k v m).length = m.length + if k ∈ keys m then 0 else 1 := by
  induction m with
  | nil => simp [Entries.insert, keys]
  | cons d m ih =>
    obtain ⟨k', v'⟩ := d
    obtain ⟨hhead, htail⟩ := List.pairwise_cons.mp hm
    simp only [Entries.insert]
    split
    · next hlt =>
      have hfree : k ∉ keys ((k', v') :: m) := by
        intro hmem
        obtain ⟨e, he, rfl⟩ := List.mem_map.mp hmem
        rcases List.mem_cons.mp he with rfl | he
        · exact Std.lt_irrefl hlt
        · exact Std.not_gt_of_lt hlt (hhead e he)
      rw [if_neg hfree, List.length_cons]
    · split
      · next heq => simp [heq, keys]
      · next hne =>
        have hkeys : k ∈ keys ((k', v') :: m) ↔ k ∈ keys m := by simp [keys, hne]
        simp only [List.length_cons, ih htail, hkeys]
        omega

/-- A key larger than all others goes to the end. -/
theorem insert_eq_concat {k : κ} (v : α) (h : ∀ e ∈ m, e.1 < k) :
    insert k v m = m ++ [(k, v)] := by
  induction m with
  | nil => rfl
  | cons d m ih =>
    obtain ⟨k', v'⟩ := d
    obtain ⟨hd, hm⟩ := List.forall_mem_cons.mp h
    simp [insert, Std.not_gt_of_lt hd, (Std.ne_of_lt hd).symm, ih hm]

/-- The entries in order make themselves. -/
theorem Ascending.ofList_eq (hm : Ascending m) : ofList m = m := by
  induction m using List.reverseRecOn with
  | nil => rfl
  | append_singleton m e ih =>
    obtain ⟨hfront, -, hlast⟩ := List.pairwise_append.mp hm
    rw [ofList_concat, ih hfront, insert_eq_concat e.2 fun d hd => hlast d hd e (by simp)]

variable [Std.IsLinearOrder κ]

/-- Different keys may be bound in either order. -/
theorem insert_comm {k l : κ} (h : k ≠ l) (v w : α) (m : List (κ × α)) :
    insert k v (insert l w m) = insert l w (insert k v m) := by
  wlog hlt : k < l generalizing k l v w
  · have hgt : l < k := (Std.lt_trichotomy k l).resolve_left hlt |>.resolve_left h
    exact (this h.symm w v hgt).symm
  have hge : ¬ l < k := Std.not_gt_of_lt hlt
  induction m with
  | nil => simp [insert, hlt, hge, h.symm]
  | cons d m ih =>
    obtain ⟨k', v'⟩ := d
    -- the smaller key goes in front of the entry, takes its place or goes behind it
    rcases Std.lt_trichotomy k k' with hk | rfl | hk
    · rcases Std.lt_trichotomy l k' with hl | rfl | hl
      · simp [insert, hlt, hge, h.symm, hk, hl]
      · simp [insert, hlt, hge, h.symm, Std.lt_irrefl]
      · simp [insert, hge, h.symm, hk, Std.not_gt_of_lt hl, (Std.ne_of_lt hl).symm]
    · simp [insert, hge, h.symm, Std.lt_irrefl]
    · have hl : k' < l := Std.lt_trans hk hlt
      simp [insert, Std.not_gt_of_lt hk, (Std.ne_of_lt hk).symm, Std.not_gt_of_lt hl,
        (Std.ne_of_lt hl).symm, ih]

theorem ascending_ofList : Ascending (ofList pairs) := by
  induction pairs using List.reverseRecOn with
  | nil => exact List.Pairwise.nil
  | append_singleton pairs e ih =>
    rw [ofList_concat]
    exact ih.insert e.1 e.2

theorem mem_ofList {k : κ} {v : α} :
    (k, v) ∈ ofList pairs ↔ (pairs.filter (·.1 = k)).getLast? = some (k, v) := by
  rw [ascending_ofList.mem_iff, get?_ofList, Option.map_eq_some_iff]
  constructor
  · rintro ⟨⟨k', v'⟩, h, rfl⟩
    have hmem := List.mem_of_getLast? h
    obtain rfl : k' = k := by simpa using (List.mem_filter.mp hmem).2
    exact h
  · exact fun h => ⟨_, h, rfl⟩

theorem mem_of_mem_ofList {e : κ × α} (h : e ∈ ofList pairs) : e ∈ pairs :=
  (List.mem_filter.mp (List.mem_of_getLast? (mem_ofList.mp h))).1

end Entries

namespace KeyMap

variable [LE κ] [Std.LawfulOrderLT κ] {m : KeyMap κ α}

theorem nodup_keys (m : KeyMap κ α) : m.keys.Nodup := m.ascending.nodup

variable [DecidableEq κ]

theorem mem_entries {k : κ} {v : α} : (k, v) ∈ m.entries ↔ get? k m = some v :=
  m.ascending.mem_iff

/-- The size of a map is the number of keys with a value. -/
theorem size_eq {ks : List κ} (h : ∀ k, (get? k m).isSome ↔ k ∈ ks) : m.size = ks.dedup.length :=
  m.ascending.length_eq h

theorem insert_eq_self [DecidableLT κ] [Std.IsLinearOrder κ] {k : κ} {v : α}
    (h : get? k m = some v) : insert k v m = m :=
  KeyMap.ext (m.ascending.insert_eq_self h)

end KeyMap

end Rulebook
