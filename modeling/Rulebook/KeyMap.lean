/-!
# Maps in key order

A finite map is the list of its entries with strictly ascending keys, so two maps with the same
entries are the same map. The functions on lists of entries come first, because a value may itself
be a map of values, and a type that is defined through a list of its own members cannot hold a proof
about that list. A map everywhere else carries the proof that its keys ascend.
-/
namespace Rulebook

namespace Entries

variable {κ α β : Type}

/-- The keys in stored order. -/
def keys (m : List (κ × α)) : List κ := m.map Prod.fst

/-- Change every value and no key. -/
def mapValues (f : α → β) (m : List (κ × α)) : List (κ × β) := m.map fun (k, v) => (k, f v)

/-- Strictly ascending keys. -/
def Ascending [LT κ] (m : List (κ × α)) : Prop := m.Pairwise (fun a b => a.1 < b.1)

instance [LT κ] [DecidableLT κ] (m : List (κ × α)) : Decidable (Ascending m) :=
  inferInstanceAs (Decidable (m.Pairwise _))

theorem Ascending.mapValues [LT κ] {m : List (κ × α)} (hm : Ascending m) (f : α → β) :
    Ascending (mapValues f m) := List.Pairwise.map _ (fun _ _ h => h) hm

variable [DecidableEq κ]

/-- The value stored under a key. -/
def get? (k : κ) : List (κ × α) → Option α
  | [] => none
  | (k', v) :: rest => if k = k' then some v else get? k rest

@[simp] theorem get?_nil (k : κ) : get? k ([] : List (κ × α)) = none := rfl

theorem get?_cons (k k' : κ) (v : α) (m : List (κ × α)) :
    get? k ((k', v) :: m) = if k = k' then some v else get? k m := rfl

theorem get?_isSome (k : κ) (m : List (κ × α)) : (get? k m).isSome ↔ k ∈ keys m := by
  induction m with
  | nil => simp [keys]
  | cons e m ih =>
    obtain ⟨k', v⟩ := e
    by_cases h : k = k' <;> simp_all [get?_cons, keys]

theorem get?_mapValues (f : α → β) (k : κ) (m : List (κ × α)) :
    get? k (mapValues f m) = (get? k m).map f := by
  induction m with
  | nil => rfl
  | cons e m ih =>
    have hcons : mapValues f (e :: m) = (e.1, f e.2) :: mapValues f m := rfl
    rw [hcons, get?_cons, ih, get?]
    split <;> rfl

variable [LT κ] [DecidableLT κ]

/-- Bind a key: an entry of that key is replaced where it stands, a new one goes before the first
larger key. -/
def insert (k : κ) (v : α) : List (κ × α) → List (κ × α)
  | [] => [(k, v)]
  | (k', v') :: rest =>
    if k < k' then (k, v) :: (k', v') :: rest
    else if k = k' then (k, v) :: rest
    else (k', v') :: insert k v rest

/-- Bind the pairs one after the other, so that the last of a repeated key stays. -/
def ofList (pairs : List (κ × α)) : List (κ × α) :=
  pairs.foldl (fun m e => insert e.1 e.2 m) []

@[simp] theorem get?_insert_self (k : κ) (v : α) (m : List (κ × α)) :
    get? k (insert k v m) = some v := by
  induction m with
  | nil => simp [insert, get?]
  | cons e m ih =>
    obtain ⟨k', v'⟩ := e
    simp only [insert]
    split
    · simp [get?]
    · split
      · simp [get?]
      · rename_i h
        simp [get?, h, ih]

theorem get?_insert_of_ne {k k' : κ} (h : k' ≠ k) (v : α) (m : List (κ × α)) :
    get? k' (insert k v m) = get? k' m := by
  induction m with
  | nil => simp [insert, get?, h]
  | cons e m ih =>
    obtain ⟨k₀, v₀⟩ := e
    simp only [insert]
    split
    · simp [get?, h]
    · split
      · rename_i h₀
        subst h₀
        simp [get?, h]
      · simp [get?, ih]

theorem fst_of_mem_insert {k : κ} {v : α} {e : κ × α} {m : List (κ × α)} (h : e ∈ insert k v m) :
    e.1 = k ∨ e ∈ m := by
  induction m with
  | nil => exact .inl (by simp_all [insert])
  | cons d m ih =>
    obtain ⟨k', v'⟩ := d
    simp only [insert] at h
    split at h
    · rcases List.mem_cons.mp h with rfl | h
      · exact .inl rfl
      · exact .inr h
    · split at h
      · rcases List.mem_cons.mp h with rfl | h
        · exact .inl rfl
        · exact .inr (List.mem_cons_of_mem _ h)
      · rcases List.mem_cons.mp h with rfl | h
        · exact .inr (by simp)
        · rcases ih h with h | h
          · exact .inl h
          · exact .inr (List.mem_cons_of_mem _ h)

variable [LE κ] [Std.IsLinearOrder κ] [Std.LawfulOrderLT κ]

theorem Ascending.insert {m : List (κ × α)} (hm : Ascending m) (k : κ) (v : α) :
    Ascending (insert k v m) := by
  induction m with
  | nil => simp [Entries.insert, Ascending]
  | cons d m ih =>
    obtain ⟨k', v'⟩ := d
    obtain ⟨hhead, htail⟩ := List.pairwise_cons.mp hm
    simp only [Entries.insert]
    split
    · next hlt =>
      refine List.pairwise_cons.mpr ⟨fun e he => ?_, hm⟩
      rcases List.mem_cons.mp he with rfl | he
      · exact hlt
      · exact Std.lt_trans hlt (hhead e he)
    · next hge =>
      split
      · next heq =>
        subst heq
        exact List.pairwise_cons.mpr ⟨hhead, htail⟩
      · next hne =>
        have hlt : k' < k := Std.lt_of_le_of_ne (Std.not_lt.mp hge) (Ne.symm hne)
        refine List.pairwise_cons.mpr ⟨fun e he => ?_, ih htail⟩
        rcases fst_of_mem_insert he with rfl | he
        · exact hlt
        · exact hhead e he

end Entries

/-- A finite map: entries with strictly ascending keys. -/
@[ext]
structure KeyMap (κ α : Type) [LT κ] where
  entries : List (κ × α)
  ascending : Entries.Ascending entries
deriving DecidableEq, Repr

namespace KeyMap

variable {κ α β : Type} [LT κ]

def empty : KeyMap κ α := ⟨[], .nil⟩

instance : Inhabited (KeyMap κ α) := ⟨empty⟩

/-- The number of entries. -/
def size (m : KeyMap κ α) : Nat := m.entries.length

/-- The keys, ascending. -/
def keys (m : KeyMap κ α) : List κ := Entries.keys m.entries

/-- The values by ascending key. -/
def values (m : KeyMap κ α) : List α := m.entries.map Prod.snd

/-- Change every value and no key. -/
def mapValues (f : α → β) (m : KeyMap κ α) : KeyMap κ β :=
  ⟨Entries.mapValues f m.entries, m.ascending.mapValues f⟩

variable [DecidableEq κ]

/-- The value stored under a key. -/
def get? (k : κ) (m : KeyMap κ α) : Option α := Entries.get? k m.entries

@[simp] theorem get?_empty (k : κ) : get? k (empty : KeyMap κ α) = none := rfl

theorem get?_isSome (k : κ) (m : KeyMap κ α) : (get? k m).isSome ↔ k ∈ keys m :=
  Entries.get?_isSome k m.entries

theorem get?_mapValues (f : α → β) (k : κ) (m : KeyMap κ α) :
    get? k (mapValues f m) = (get? k m).map f := Entries.get?_mapValues f k m.entries

variable [DecidableLT κ] [LE κ] [Std.IsLinearOrder κ] [Std.LawfulOrderLT κ]

/-- Bind a key, in place of what was bound to it. -/
def insert (k : κ) (v : α) (m : KeyMap κ α) : KeyMap κ α :=
  ⟨Entries.insert k v m.entries, m.ascending.insert k v⟩

/-- Bind a key only if it is free: the first binding stays. -/
def insertNew (k : κ) (v : α) (m : KeyMap κ α) : KeyMap κ α :=
  if (get? k m).isSome then m else insert k v m

@[simp] theorem get?_insert_self (k : κ) (v : α) (m : KeyMap κ α) :
    get? k (insert k v m) = some v := Entries.get?_insert_self k v m.entries

theorem get?_insert_of_ne {k k' : κ} (h : k' ≠ k) (v : α) (m : KeyMap κ α) :
    get? k' (insert k v m) = get? k' m := Entries.get?_insert_of_ne h v m.entries

theorem get?_insertNew (k k' : κ) (v : α) (m : KeyMap κ α) :
    get? k' (insertNew k v m) = if k' = k then some ((get? k m).getD v) else get? k' m := by
  by_cases h : k' = k
  · subst h
    cases h : get? k' m <;> simp [insertNew, h]
  · cases h' : get? k m <;> simp [insertNew, h, h', get?_insert_of_ne h]

end KeyMap

end Rulebook
