import Rulebook.Text.Parser

/-!
# When a parser refuses, and what repetition read

A parser refuses an input if it fails there without commitment, so that an alternative may be tried
from the same place. The lemmas below say which combinators pass a refusal on and which recover
from it. Results of `many` and of `fix` are described by a chain of single results and by an
invariant of one layer.
-/
namespace Rulebook.Text.Parser

variable {ε α β : Type}

/-- The parser fails at the input without commitment. -/
def Refuses (p : Parser ε α) (s : List Char) : Prop :=
  ∃ rest expected, p s = .failed false rest expected

/-- No character of the class follows. -/
def EndsBefore (p : Char → Bool) (s : List Char) : Prop := ∀ c ∈ s.head?, p c = false

@[simp] theorem endsBefore_nil (p : Char → Bool) : EndsBefore p [] := by simp [EndsBefore]

@[simp] theorem endsBefore_cons {p : Char → Bool} {c : Char} {s : List Char} :
    EndsBefore p (c :: s) ↔ p c = false := by simp [EndsBefore]

theorem EndsBefore.mono {p q : Char → Bool} {s : List Char} (h : EndsBefore q s)
    (hpq : ∀ c, p c = true → q c = true) : EndsBefore p s := fun c hc =>
  Bool.eq_false_iff.mpr fun hp => Bool.eq_false_iff.mp (h c hc) (hpq c hp)

theorem EndsBefore.head?_ne {p : Char → Bool} {s : List Char} (h : EndsBefore p s) {c : Char}
    (hc : p c = true) : s.head? ≠ some c := fun hs => Bool.eq_false_iff.mp (h c hs) hc

/-- No failure of the parser is committed. -/
def NeverCommits (p : Parser ε α) : Prop :=
  ∀ s rest expected, p s ≠ .failed true rest expected

/-- A parser that never commits refuses what it does not read. -/
theorem NeverCommits.refuses {p : Parser ε α} (hp : NeverCommits p) {s : List Char}
    (h : ∀ a t, p s ≠ .done a t) : Refuses p s := by
  cases hs : p s with
  | done a t => exact absurd hs (h a t)
  | failed committed r e =>
    cases committed with
    | false => exact ⟨r, e, hs⟩
    | true => exact absurd hs (hp s r e)

theorem neverCommits_succeed (a : α) : NeverCommits (succeed a : Parser ε α) := by
  intro s r e h
  simp at h

theorem neverCommits_takeWhile1 (p : Char → Bool) :
    NeverCommits (takeWhile1 p : Parser ε (List Char)) := by
  intro s r e h
  unfold takeWhile1 at h
  split at h <;> simp at h

theorem neverCommits_exactly (w : String) : NeverCommits (exactly w : Parser ε Unit) := by
  intro s r e h
  unfold exactly at h
  split at h <;> simp at h

theorem neverCommits_char (c : Char) : NeverCommits (char c : Parser ε Unit) := by
  intro s r e h
  cases s with
  | nil => simp [char] at h
  | cons d s =>
    simp only [char] at h
    split at h <;> simp at h

theorem neverCommits_notBefore (p : Char → Bool) : NeverCommits (notBefore p : Parser ε Unit) := by
  intro s r e h
  cases s with
  | nil => simp [notBefore] at h
  | cons c s =>
    simp only [notBefore] at h
    split at h <;> simp at h

theorem NeverCommits.bind {p : Parser ε α} {f : α → Parser ε β} (hp : NeverCommits p)
    (hf : ∀ a, NeverCommits (f a)) : NeverCommits (p >>= f) := by
  intro s r e h
  cases hs : p s with
  | done a t => exact hf a t r e (by rwa [bind_of_done hs] at h)
  | failed committed r' e' =>
    rw [bind_of_failed hs] at h
    obtain ⟨rfl, rfl, rfl⟩ : committed = true ∧ r' = r ∧ e' = e := by simpa using h
    exact hp s r' e' hs

theorem NeverCommits.orElse {p q : Parser ε α} (hp : NeverCommits p) (hq : NeverCommits q) :
    NeverCommits (orElse p q) := by
  intro s r e h
  unfold Parser.orElse at h
  split at h
  · simp at h
  · exact hq s r e h
  · next hs => exact hp s _ _ hs

theorem NeverCommits.accept {p : Parser ε α} (hp : NeverCommits p) (read : α → Option β) :
    NeverCommits (accept p read) := by
  intro s r e h
  unfold Parser.accept at h
  split at h
  · split at h <;> simp at h
  · next committed r' e' hs =>
    obtain ⟨rfl, rfl, rfl⟩ : committed = true ∧ r' = r ∧ e' = e := by simpa using h
    exact hp s r' e' hs

theorem refuses_char_iff {c : Char} {s : List Char} :
    Refuses (char c : Parser ε Unit) s ↔ s.head? ≠ some c := by
  constructor
  · rintro ⟨r, e, h⟩ hs
    obtain ⟨t, rfl⟩ := List.head?_eq_some_iff.mp hs
    simp [char] at h
  · intro h
    exact (neverCommits_char c).refuses fun _ t hs => h (by simp [char_eq_done.mp hs])

theorem refuses_char {c : Char} {s : List Char} (h : s.head? ≠ some c) :
    Refuses (char c : Parser ε Unit) s := refuses_char_iff.mpr h

theorem orElse_of_done {p : Parser ε α} {s t : List Char} {a : α} (h : p s = .done a t)
    (q : Parser ε α) : orElse p q s = .done a t := orElse_eq_done.mpr (.inl h)

theorem bind_succeed {p : Parser ε α} {s t : List Char} {a : α} (h : p s = .done a t) (b : β) :
    (p >>= fun _ => succeed b) s = .done b t := bind_of_done h _

theorem Refuses.bind {p : Parser ε α} {s : List Char} (h : Refuses p s) (f : α → Parser ε β) :
    Refuses (p >>= f) s := by
  obtain ⟨r, e, h⟩ := h
  exact ⟨r, e, bind_of_failed h f⟩

theorem refuses_bind {p : Parser ε α} {f : α → Parser ε β} {s t : List Char} {a : α}
    (h : p s = .done a t) (hf : Refuses (f a) t) : Refuses (p >>= f) s := by
  obtain ⟨r, e, hf⟩ := hf
  exact ⟨r, e, by rw [bind_of_done h, hf]⟩

theorem Refuses.orElse_eq {p : Parser ε α} {s : List Char} (h : Refuses p s) (q : Parser ε α) :
    orElse p q s = q s := by
  obtain ⟨r, e, h⟩ := h
  simp only [orElse, h]

theorem Refuses.orElse {p q : Parser ε α} {s : List Char} (hp : Refuses p s) (hq : Refuses q s) :
    Refuses (orElse p q) s := by
  obtain ⟨r, e, hq⟩ := hq
  exact ⟨r, e, by rw [hp.orElse_eq q, hq]⟩

theorem Refuses.optional_eq {p : Parser ε α} {s : List Char} (h : Refuses p s) :
    optional p s = .done none s := optional_eq_done_none.mpr ⟨h, rfl⟩

theorem Refuses.expecting {p : Parser ε α} {s : List Char} (h : Refuses p s) (what : ε) :
    Refuses (expecting what p) s := by
  obtain ⟨r, e, h⟩ := h
  exact ⟨r, e ++ [what], by simp only [Parser.expecting, h]⟩

theorem Refuses.many_eq {p : Parser ε α} {s : List Char} (h : Refuses p s) :
    many p s = .done [] s := by
  obtain ⟨r, e, h⟩ := h
  exact many_of_failed h

/-- One result after the other, from the first text to the last. -/
inductive Repeats (p : Parser ε α) : List Char → List α → List Char → Prop
  | stop {s : List Char} : Repeats p s [] s
  | step {s r t : List Char} {a : α} {as : List α} (first : p s = .done a r)
      (others : Repeats p r as t) : Repeats p s (a :: as) t

theorem repeats_of_many {p : Parser ε α} {s t : List Char} {as : List α}
    (h : many p s = .done as t) : Repeats p s as t := by
  induction hn : s.length using Nat.strongRecOn generalizing s as with
  | ind n ih =>
    rw [many] at h
    split at h
    · next a r hp =>
      split at h
      · next shorter =>
        split at h
        · next bs u hbs =>
          obtain ⟨rfl, rfl⟩ : a :: bs = as ∧ u = t := by simpa using h
          exact .step hp (ih _ (hn ▸ shorter) hbs rfl)
        · simp at h
      · obtain ⟨rfl, rfl⟩ : [] = as ∧ s = t := by simpa using h
        exact .stop
    · obtain ⟨rfl, rfl⟩ : [] = as ∧ s = t := by simpa using h
      exact .stop
    · simp at h

/-- A relation that one layer keeps holds of every result of the recursive parser. -/
theorem fix_keeps {layer : Parser ε α → Parser ε α} {R : List Char → α → List Char → Prop}
    (keeps : ∀ nested : Parser ε α, (∀ s a t, nested s = .done a t → R s a t) →
      ∀ s a t, layer nested s = .done a t → R s a t)
    (s : List Char) (a : α) (t : List Char) (h : fix layer s = .done a t) : R s a t := by
  induction hn : s.length using Nat.strongRecOn generalizing s a t with
  | ind n ih =>
    rw [fix_apply] at h
    refine keeps _ ?_ s a t h
    intro s' a' t' h'
    split at h'
    · next shorter => exact ih _ (hn ▸ shorter) s' a' t' h' rfl
    · simp at h'

end Rulebook.Text.Parser
