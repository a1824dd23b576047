import Mathlib.Data.List.Basic
import Rulebook.Registry

/-!
# Stable sorting and sorted insertion

A sorted list is determined by the order of its elements within each class of tied elements, and
a stable sort leaves that order alone. So whatever sorts and leaves it alone is the stable sort:
filtering a sorted list is, and so is inserting behind all elements that may stand in front.
-/
namespace Rulebook

section Search

variable {α : Type} {front : α → Bool} {l : List α} {k : Nat}

/-- The point stays between the ends of the stretch. -/
theorem halve_eq (hk : ∀ i, l[i]?.any front = decide (i < k)) {base size : Nat}
    (hlow : base ≤ k) (hhigh : k ≤ base + size) : halve front l base size = k := by
  induction size using Nat.strongRecOn generalizing base with
  | ind size ih =>
    unfold halve
    by_cases hsize : 1 < size
    · simp only [if_pos hsize, hk]
      by_cases hmiddle : base + size / 2 < k
      · rw [decide_eq_true hmiddle, if_pos rfl]
        exact ih _ (by omega) (by omega) (by omega)
      · rw [decide_eq_false hmiddle, if_neg Bool.false_ne_true]
        exact ih _ (by omega) (by omega) (by omega)
    · rw [if_neg hsize, hk]
      by_cases hbase : base < k
      · rw [decide_eq_true hbase, if_pos rfl]
        omega
      · rw [decide_eq_false hbase, if_neg Bool.false_ne_true]
        omega

theorem partitionPoint_append {l₁ l₂ : List α} (h₁ : ∀ a ∈ l₁, front a = true)
    (h₂ : ∀ a ∈ l₂, front a = false) : partitionPoint front (l₁ ++ l₂) = l₁.length := by
  refine halve_eq (fun i => ?_) (Nat.zero_le _) (by simp)
  by_cases hi : i < l₁.length
  · rw [List.getElem?_append_left hi, List.getElem?_eq_getElem hi, decide_eq_true hi]
    exact h₁ _ (List.getElem_mem hi)
  · rw [List.getElem?_append_right (by omega), decide_eq_false hi]
    cases h : l₂[i - l₁.length]? with
    | none => rfl
    | some a => exact h₂ a (List.mem_of_getElem? h)

end Search

section Stable

variable {α : Type} {le : α → α → Bool}

/-- Elements that the order does not tell apart. -/
def tied (le : α → α → Bool) (a b : α) : Bool := le a b && le b a

variable (trans : ∀ a b c, le a b → le b c → le a c) (total : ∀ a b, le a b || le b a)

include total in
theorem le_self (a : α) : le a a = true := by simpa using total a a

include total in
theorem tied_self (a : α) : tied le a a = true := by simp [tied, le_self total a]

include total in
/-- The head of a sorted list comes before every element. -/
theorem head_le {a b : α} {s : List α} (hs : (a :: s).Pairwise (le · ·)) (hb : b ∈ a :: s) :
    le a b = true := by
  rcases List.mem_cons.mp hb with rfl | hb
  · exact le_self total b
  · exact List.rel_of_pairwise_cons hs hb

include total in
theorem mem_of_tied {a : α} {s t : List α} (h : s.filter (tied le a) = t.filter (tied le a))
    (ha : a ∈ s) : a ∈ t := by
  have hmem : a ∈ t.filter (tied le a) := h ▸ List.mem_filter.mpr ⟨ha, tied_self total a⟩
  exact (List.mem_filter.mp hmem).1

include total in
/-- Sorted lists with the same order within each class of tied elements are equal. -/
theorem eq_of_sorted_of_tied {s t : List α} (hs : s.Pairwise (le · ·)) (ht : t.Pairwise (le · ·))
    (h : ∀ a, s.filter (tied le a) = t.filter (tied le a)) : s = t := by
  induction s generalizing t with
  | nil =>
    cases t with
    | nil => rfl
    | cons b t => exact absurd (mem_of_tied total (h b).symm (by simp)) (by simp)
  | cons a s ih =>
    cases t with
    | nil => exact absurd (mem_of_tied total (h a) (by simp)) (by simp)
    | cons b t =>
      have hab : tied le a b = true := by
        have hle := head_le total hs (mem_of_tied total (h b).symm (by simp))
        have hge := head_le total ht (mem_of_tied total (h a) (by simp))
        simp [tied, hle, hge]
      obtain ⟨rfl, -⟩ : a = b ∧ s.filter (tied le a) = t.filter (tied le a) := by
        simpa [tied_self total, hab] using h a
      have htail : ∀ c, s.filter (tied le c) = t.filter (tied le c) := by
        intro c
        have hc := h c
        by_cases htied : tied le c a = true
        · simpa [htied] using hc
        · simpa [htied] using hc
      rw [ih hs.of_cons ht.of_cons htail]

include trans in
/-- A class of tied elements is sorted as it stands. -/
theorem pairwise_tied (a : α) (l : List α) : (l.filter (tied le a)).Pairwise (le · ·) := by
  refine List.pairwise_of_forall_mem_list fun b hb c hc => ?_
  have hb' := (List.mem_filter.mp hb).2
  have hc' := (List.mem_filter.mp hc).2
  simp only [tied, Bool.and_eq_true] at hb' hc'
  exact trans b a c hb'.2 hc'.1

include trans total

/-- Sorting leaves the order of tied elements alone. -/
theorem filter_tied_mergeSort (a : α) (l : List α) :
    (l.mergeSort le).filter (tied le a) = l.filter (tied le a) := by
  have hsub : List.Sublist (l.filter (tied le a)) ((l.mergeSort le).filter (tied le a)) := by
    have := List.sublist_mergeSort trans total (pairwise_tied trans a l) List.filter_sublist
    simpa using this.filter (tied le a)
  have hlength := ((List.mergeSort_perm l le).filter (tied le a)).length_eq
  exact (hsub.eq_of_length hlength.symm).symm

/-- What is sorted and leaves the order of tied elements alone is the stable sort. -/
theorem eq_mergeSort {s l : List α} (hs : s.Pairwise (le · ·))
    (h : ∀ a, s.filter (tied le a) = l.filter (tied le a)) : s = l.mergeSort le := by
  refine eq_of_sorted_of_tied total hs (List.pairwise_mergeSort trans total l) fun a => ?_
  rw [h, filter_tied_mergeSort trans total]

theorem filter_mergeSort (keep : α → Bool) (l : List α) :
    (l.mergeSort le).filter keep = (l.filter keep).mergeSort le := by
  refine eq_mergeSort trans total ((List.pairwise_mergeSort trans total l).filter keep) fun a => ?_
  rw [List.filter_comm, filter_tied_mergeSort trans total, List.filter_comm]

/-- A sorted list has in front what may stand before an element, and behind what may not. -/
theorem exists_split {s : List α} (hs : s.Pairwise (le · ·)) (a : α) :
    ∃ l₁ l₂, s = l₁ ++ l₂ ∧ (∀ b ∈ l₁, le b a = true) ∧ ∀ b ∈ l₂, le b a = false := by
  refine ⟨s.takeWhile (le · a), s.dropWhile (le · a), List.takeWhile_append_dropWhile.symm,
    List.all_eq_true.mp List.all_takeWhile, fun b hb => ?_⟩
  cases hd : s.dropWhile (le · a) with
  | nil => simp [hd] at hb
  | cons d t =>
    have hfirst : le d a = false := by
      have := List.head?_dropWhile_not (le · a) s
      simpa [hd] using this
    have hsorted : (d :: t).Pairwise (le · ·) := hd ▸ hs.sublist (List.dropWhile_sublist _)
    rw [hd] at hb
    cases hba : le b a with
    | false => rfl
    | true =>
      rw [trans d b a (head_le total hsorted hb) hba] at hfirst
      exact hfirst

/-- An element that comes last is sorted behind all that may stand in front of it. -/
theorem insert_mergeSort {l l₁ l₂ : List α} {a : α} (hl : l.mergeSort le = l₁ ++ l₂)
    (h₁ : ∀ b ∈ l₁, le b a = true) (h₂ : ∀ b ∈ l₂, le b a = false) :
    l₁ ++ a :: l₂ = (l ++ [a]).mergeSort le := by
  have hsorted := List.pairwise_mergeSort trans total l
  rw [hl, List.pairwise_append] at hsorted
  obtain ⟨hs₁, hs₂, hcross⟩ := hsorted
  have habove : ∀ b ∈ l₂, le a b = true := fun b hb => by simpa [h₂ b hb] using total a b
  refine eq_mergeSort trans total ?_ fun c => ?_
  · refine List.pairwise_append.mpr ⟨hs₁, List.pairwise_cons.mpr ⟨habove, hs₂⟩, ?_⟩
    intro b hb d hd
    rcases List.mem_cons.mp hd with rfl | hd
    · exact h₁ b hb
    · exact hcross b hb d hd
  · have hfilter := filter_tied_mergeSort trans total c l
    rw [hl, List.filter_append] at hfilter
    by_cases hc : tied le c a = true
    · -- nothing behind the new element is tied with it
      have hnone : l₂.filter (tied le c) = [] := by
        refine List.filter_eq_nil_iff.mpr fun b hb htied => ?_
        simp only [tied, Bool.and_eq_true] at hc htied
        have := trans b c a htied.2 hc.1
        simp [h₂ b hb] at this
      rw [hnone, List.append_nil] at hfilter
      simp [hc, hnone, hfilter]
    · simp [hc, hfilter]

end Stable

end Rulebook
