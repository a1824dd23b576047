import Mathlib.Data.List.Infix
import Rulebook.Proofs.Text.Refusal

/-!
# Progress

What a parser leaves is an end of the text that it was given. If it is always a shorter one, the
parser may be repeated and may nest itself, and nothing but the text has to stop it: a loop that
only counts its rounds ends where `many` ends, once it may go round as often as the text is long.

Two parsers agree below a length if they answer alike on all shorter texts. A parser that advances
leaves to the next one a text below one length less, which is where agreement of nested parsers on
shorter texts turns into agreement of the parsers around them.
-/
namespace Rulebook.Text.Parser

variable {ε α β : Type}

/-- Every result leaves a text that stands in a relation to the text given. -/
def Leads (R : List Char → List Char → Prop) (p : Parser ε α) : Prop :=
  ∀ s a t, p s = .done a t → R s t

/-- What is left is an end of the text. -/
abbrev LeavesSuffix (p : Parser ε α) : Prop := Leads (fun s t => t <:+ s) p

/-- What is left is an end of the text, and at least one character is taken. -/
abbrev Advances (p : Parser ε α) : Prop := Leads (fun s t => t <:+ s ∧ t.length < s.length) p

section Leads

variable {R R' R'' : List Char → List Char → Prop} {p q : Parser ε α} {f : α → Parser ε β}

theorem Leads.bind (hp : Leads R p) (hf : ∀ a, Leads R' (f a))
    (trans : ∀ s r t, R s r → R' r t → R'' s t) : Leads R'' (p >>= f) := by
  intro s b t h
  obtain ⟨a, r, hr, ht⟩ := bind_eq_done.mp h
  exact trans s r t (hp s a r hr) (hf a r b t ht)

theorem Leads.orElse (hp : Leads R p) (hq : Leads R q) : Leads R (orElse p q) := by
  intro s a t h
  rcases orElse_eq_done.mp h with h | ⟨-, h⟩
  · exact hp s a t h
  · exact hq s a t h

theorem Leads.commit (hp : Leads R p) : Leads R (commit p) := fun s a t h =>
  hp s a t (commit_eq_done.mp h)

theorem Leads.expecting (hp : Leads R p) (what : ε) : Leads R (expecting what p) := fun s a t h =>
  hp s a t (expecting_eq_done.mp h)

theorem Leads.accept (hp : Leads R p) (read : α → Option β) : Leads R (accept p read) := by
  intro s b t h
  obtain ⟨a, h, -⟩ := accept_eq_done.mp h
  exact hp s a t h

end Leads

section Progress

variable {p : Parser ε α} {f : α → Parser ε β}

theorem LeavesSuffix.length_le (hp : LeavesSuffix p) {s t : List Char} {a : α}
    (h : p s = .done a t) : t.length ≤ s.length := (hp s a t h).length_le

theorem Advances.length_lt (hp : Advances p) {s t : List Char} {a : α} (h : p s = .done a t) :
    t.length < s.length := (hp s a t h).2

theorem Advances.leavesSuffix (hp : Advances p) : LeavesSuffix p := fun s a t h => (hp s a t h).1

theorem LeavesSuffix.bind (hp : LeavesSuffix p) (hf : ∀ a, LeavesSuffix (f a)) :
    LeavesSuffix (p >>= f) := Leads.bind hp hf fun _ _ _ h h' => h'.trans h

theorem Advances.bind (hp : Advances p) (hf : ∀ a, LeavesSuffix (f a)) : Advances (p >>= f) :=
  Leads.bind hp hf fun _ _ _ h h' => ⟨h'.trans h.1, Nat.lt_of_le_of_lt h'.length_le h.2⟩

/-- It is enough if the second parser advances. -/
theorem LeavesSuffix.bind_advances (hp : LeavesSuffix p) (hf : ∀ a, Advances (f a)) :
    Advances (p >>= f) :=
  Leads.bind hp hf fun _ _ _ h h' => ⟨h'.1.trans h, Nat.lt_of_lt_of_le h'.2 h.length_le⟩

theorem LeavesSuffix.optional (hp : LeavesSuffix p) : LeavesSuffix (optional p) := by
  intro s o t h
  cases o with
  | some a => exact hp s a t (optional_eq_done_some.mp h)
  | none =>
    obtain ⟨-, rfl⟩ := optional_eq_done_none.mp h
    exact List.suffix_rfl

theorem leavesSuffix_succeed (a : α) : LeavesSuffix (succeed a : Parser ε α) := by
  intro s b t h
  obtain ⟨-, rfl⟩ : a = b ∧ s = t := by simpa using h
  exact List.suffix_rfl

theorem leavesSuffix_takeWhile (c : Char → Bool) :
    LeavesSuffix (takeWhile c : Parser ε (List Char)) := by
  intro s cs t h
  obtain ⟨rfl, -⟩ := takeWhile_eq_done.mp h
  exact List.suffix_append cs t

theorem advances_takeWhile1 (c : Char → Bool) :
    Advances (takeWhile1 c : Parser ε (List Char)) := by
  intro s cs t h
  obtain ⟨hne, rfl, -⟩ := takeWhile1_eq_done.mp h
  have hpos := List.length_pos_iff.mpr hne
  exact ⟨List.suffix_append cs t, by rw [List.length_append]; omega⟩

theorem leavesSuffix_exactly (w : String) : LeavesSuffix (exactly w : Parser ε Unit) := by
  intro s u t h
  rw [exactly_eq_done.mp h]
  exact List.suffix_append _ t

theorem advances_exactly {w : String} (hw : w.toList ≠ []) :
    Advances (exactly w : Parser ε Unit) := by
  intro s u t h
  have hpos := List.length_pos_iff.mpr hw
  rw [exactly_eq_done.mp h]
  exact ⟨List.suffix_append _ t, by rw [List.length_append]; omega⟩

theorem advances_char (c : Char) : Advances (char c : Parser ε Unit) := by
  intro s u t h
  rw [char_eq_done.mp h]
  exact ⟨List.suffix_cons c t, Nat.lt_succ_self _⟩

theorem leavesSuffix_notBefore (c : Char → Bool) :
    LeavesSuffix (notBefore c : Parser ε Unit) := by
  intro s u t h
  obtain ⟨rfl, -⟩ := notBefore_eq_done.mp h
  exact List.suffix_rfl

theorem LeavesSuffix.many (hp : LeavesSuffix p) : LeavesSuffix (many p) := by
  intro s as t h
  replace h := repeats_of_many h
  induction h with
  | stop => exact List.suffix_rfl
  | step first _ ih => exact ih.trans (hp _ _ _ first)

/-- A parser that never commits can be repeated on every text. -/
theorem NeverCommits.exists_many (hp : NeverCommits p) (s : List Char) :
    ∃ as t, many p s = .done as t := by
  induction hs : s.length using Nat.strongRecOn generalizing s with
  | ind n ih =>
    cases hps : p s with
    | done a r =>
      by_cases shorter : r.length < s.length
      · obtain ⟨as, t, hmany⟩ := ih r.length (hs ▸ shorter) r rfl
        exact ⟨a :: as, t, by rw [many_of_done hps shorter, bind_of_done hmany, succeed_apply]⟩
      · exact ⟨[], s, by rw [Parser.many, hps]; simp [shorter]⟩
    | failed committed r e =>
      cases committed with
      | true => exact absurd hps (hp s r e)
      | false => exact ⟨[], s, many_of_failed hps⟩

theorem LeavesSuffix.sepBy (hp : LeavesSuffix p) {separator : Parser ε Unit}
    (hs : LeavesSuffix separator) : LeavesSuffix (sepBy p separator) := by
  refine hp.optional.bind fun o => ?_
  cases o with
  | none => exact leavesSuffix_succeed _
  | some first => exact (hs.bind fun _ => hp).many.bind fun _ => leavesSuffix_succeed _

end Progress

/-- The parsers answer alike on every text shorter than that. -/
def AgreeBelow (n : Nat) (p q : Parser ε α) : Prop := ∀ s, s.length < n → p s = q s

namespace AgreeBelow

variable {n m : Nat} {p q p' q' : Parser ε α} {f g : α → Parser ε β}

theorem refl (n : Nat) (p : Parser ε α) : AgreeBelow n p p := fun _ _ => rfl

theorem mono (h : AgreeBelow n p q) (hm : m ≤ n) : AgreeBelow m p q := fun s hs =>
  h s (Nat.lt_of_lt_of_le hs hm)

theorem bind (h : AgreeBelow n p q) (hq : LeavesSuffix q) (hf : ∀ a, AgreeBelow n (f a) (g a)) :
    AgreeBelow n (p >>= f) (q >>= g) := by
  intro s hs
  cases hqs : q s with
  | done a r =>
    have hr := hq.length_le hqs
    rw [bind_of_done ((h s hs).trans hqs), bind_of_done hqs]
    exact hf a r (by omega)
  | failed c r e => rw [bind_of_failed ((h s hs).trans hqs), bind_of_failed hqs]

theorem before (h : AgreeBelow n p q) (f : α → Parser ε β) : AgreeBelow n (p >>= f) (q >>= f) := by
  intro s hs
  cases hqs : q s with
  | done a r => rw [bind_of_done ((h s hs).trans hqs), bind_of_done hqs]
  | failed c r e => rw [bind_of_failed ((h s hs).trans hqs), bind_of_failed hqs]

/-- Behind a parser that advances the texts are shorter. -/
theorem behind (hp : Advances p) (hf : ∀ a, AgreeBelow n (f a) (g a)) :
    AgreeBelow (n + 1) (p >>= f) (p >>= g) := by
  intro s hs
  cases hps : p s with
  | done a r =>
    have hr := hp.length_lt hps
    rw [bind_of_done hps, bind_of_done hps]
    exact hf a r (by omega)
  | failed c r e => rw [bind_of_failed hps, bind_of_failed hps]

theorem behindChar (h : AgreeBelow n p q) (c : Char) :
    AgreeBelow (n + 1) (char c >>= fun _ => p) (char c >>= fun _ => q) :=
  behind (advances_char c) fun _ => h

theorem orElse (hp : AgreeBelow n p p') (hq : AgreeBelow n q q') :
    AgreeBelow n (orElse p q) (orElse p' q') := by
  intro s hs
  unfold Parser.orElse
  rw [hp s hs, hq s hs]

theorem optional (h : AgreeBelow n p q) : AgreeBelow n (optional p) (optional q) := by
  intro s hs
  unfold Parser.optional
  rw [h s hs]

theorem commit (h : AgreeBelow n p q) : AgreeBelow n (commit p) (commit q) := by
  intro s hs
  unfold Parser.commit
  rw [h s hs]

theorem expecting (h : AgreeBelow n p q) (what : ε) :
    AgreeBelow n (expecting what p) (expecting what q) := by
  intro s hs
  unfold Parser.expecting
  rw [h s hs]

end AgreeBelow

/-- The loop that goes round so many times and does not look at the texts. Whatever is wanted of it
when its rounds are `spent` can be had. -/
def manyWithin (spent : Parser ε (List α)) (p : Parser ε α) : Nat → Parser ε (List α)
  | 0, s => spent s
  | rounds + 1, s =>
    match p s with
    | .done a rest =>
      match manyWithin spent p rounds rest with
      | .done as rest' => .done (a :: as) rest'
      | .failed committed rest' expected => .failed committed rest' expected
    | .failed false _ _ => .done [] s
    | .failed true rest expected => .failed true rest expected

/-- With a round for every character the rounds of a parser that advances are never spent, and no
round leaves as much as it was given. -/
theorem AgreeBelow.manyWithin {n rounds : Nat} {p q : Parser ε α} (h : AgreeBelow n p q)
    (hq : Advances q) (hn : n ≤ rounds) (spent : Parser ε (List α)) :
    AgreeBelow n (manyWithin spent p rounds) (many q) := by
  induction rounds generalizing n with
  | zero =>
    intro s hs
    omega
  | succ rounds ih =>
    intro s hs
    rw [Parser.manyWithin, many, h s hs]
    cases hqs : q s with
    | done a r =>
      have hr := hq.length_lt hqs
      have hrest := ih (h.mono (m := s.length) (by omega)) (by omega) r hr
      cases hmany : many q r <;> simp only [hr, if_true, hrest, hmany]
    | failed c r e => cases c <;> rfl

end Rulebook.Text.Parser
