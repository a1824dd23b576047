import Rulebook.Proofs.Grammar.Derivation

/-!
# Reading words

What the parsers of blanks, names, digits and quoted texts read is what the grammar calls so, in
both directions. A word parser stops where its word stops, so each statement fixes the text behind.
-/
namespace Rulebook.Condition.Grammar
open Text Text.Parser

/-- The text without the blanks in front. -/
def dropBlanks (s : List Char) : List Char := s.dropWhile isBlank

@[simp] theorem blanks_apply (s : List Char) : blanks s = .done () (dropBlanks s) := rfl

theorem blanks_eq_done {s t : List Char} {u : Unit} : blanks s = .done u t ↔ dropBlanks s = t := by
  simp

theorem endsBefore_dropBlanks (s : List Char) : EndsBefore isBlank (dropBlanks s) := by
  intro c hc
  have h := List.head?_dropWhile_not isBlank s
  rw [show (s.dropWhile isBlank).head? = some c from hc] at h
  simpa using h

theorem dropBlanks_of_endsBefore {s : List Char} (h : EndsBefore isBlank s) : dropBlanks s = s := by
  cases s with
  | nil => rfl
  | cons c s => simp [dropBlanks, endsBefore_cons.mp h]

@[simp] theorem dropBlanks_dropBlanks (s : List Char) :
    dropBlanks (dropBlanks s) = dropBlanks s :=
  dropBlanks_of_endsBefore (endsBefore_dropBlanks s)

theorem dropBlanks_length_le (s : List Char) : (dropBlanks s).length ≤ s.length :=
  (List.dropWhile_sublist isBlank).length_le

@[simp] theorem Blanks.refl (s : List Char) : Blanks s s := ⟨[], by simp, rfl⟩

theorem blanks_space (s : List Char) : Blanks (' ' :: s) s := ⟨[' '], by simp [isBlank], rfl⟩

theorem blanks_dropBlanks (s : List Char) : Blanks s (dropBlanks s) :=
  ⟨s.takeWhile isBlank, fun c hc => List.all_eq_true.mp List.all_takeWhile c hc,
    List.takeWhile_append_dropWhile.symm⟩

theorem Blanks.dropBlanks_eq {s t : List Char} (h : Blanks s t) : dropBlanks s = dropBlanks t := by
  obtain ⟨bs, hbs, rfl⟩ := h
  induction bs with
  | nil => rfl
  | cons b bs ih =>
    have hb : isBlank b = true := hbs b (by simp)
    simpa [dropBlanks, hb] using ih fun c hc => hbs c (by simp [hc])

/-- Blanks in front of what begins with none are all the blanks there are. -/
theorem Blanks.eq_of_endsBefore {s t : List Char} (h : Blanks s t) (ht : EndsBefore isBlank t) :
    dropBlanks s = t := by
  rw [h.dropBlanks_eq, dropBlanks_of_endsBefore ht]

theorem Blanks.eq_cons {s t : List Char} {c : Char} (h : Blanks s (c :: t))
    (hc : isBlank c = false) : dropBlanks s = c :: t :=
  h.eq_of_endsBefore (endsBefore_cons.mpr hc)

theorem Blanks.length_le {s t : List Char} (h : Blanks s t) : t.length ≤ s.length := by
  obtain ⟨bs, -, rfl⟩ := h
  simp

/-- Behind a character less is left. -/
theorem Blanks.length_lt {s t : List Char} {c : Char} (h : Blanks s (c :: t)) :
    t.length < s.length := h.length_le

theorem Blanks.append {s t : List Char} (h : Blanks s t) (u : List Char) :
    Blanks (s ++ u) (t ++ u) := by
  obtain ⟨bs, hbs, rfl⟩ := h
  exact ⟨bs, hbs, by simp⟩

theorem isNameChar_of_isNameStart {c : Char} (h : isNameStart c = true) : isNameChar c = true := by
  simp only [isNameStart, isNameChar, Char.isAlphanum, Bool.or_eq_true] at h ⊢
  rcases h with h | h
  · exact .inl (.inl h)
  · exact .inr h

theorem IsName.isNameChar {n : String} (h : IsName n) {d : Char} (hd : d ∈ n.toList) :
    Grammar.isNameChar d = true := by
  obtain ⟨c, cs, hn, hc, hcs⟩ := h
  rw [hn] at hd
  rcases List.mem_cons.mp hd with rfl | hd
  · exact isNameChar_of_isNameStart hc
  · exact hcs d hd

theorem isBlank_of_isNameChar {c : Char} (h : isNameChar c = true) : isBlank c = false := by
  cases hb : isBlank c with
  | false => rfl
  | true =>
    simp only [isBlank, Bool.or_eq_true, decide_eq_true_eq] at hb
    rcases hb with (((rfl | rfl) | rfl) | rfl) | rfl <;> exact absurd h (by decide)

theorem name_eq_done {s t : List Char} {n : String} : name s = .done n t ↔ Name s n t := by
  simp only [name, bind_eq_done, takeWhile1_eq_done, takeWhile_eq_done, succeed_apply,
    Outcome.done.injEq]
  constructor
  · rintro ⟨front, r, ⟨hne, rfl, hfront, -⟩, others, u, ⟨rfl, hothers, hstop⟩, rfl, rfl⟩
    obtain ⟨c, cs, rfl⟩ := List.exists_cons_of_ne_nil hne
    refine ⟨⟨c, cs ++ others, by simp, hfront c (by simp), fun d hd => ?_⟩, by simp, hstop⟩
    rcases List.mem_append.mp hd with hd | hd
    · exact isNameChar_of_isNameStart (hfront d (by simp [hd]))
    · exact hothers d hd
  · rintro ⟨⟨c, cs, hn, hc, hcs⟩, rfl, hstop⟩
    have hsplit : n.toList.takeWhile isNameStart ++ n.toList.dropWhile isNameStart = n.toList :=
      List.takeWhile_append_dropWhile
    have hall : ∀ d ∈ n.toList, isNameChar d = true := fun _ hd =>
      IsName.isNameChar ⟨c, cs, hn, hc, hcs⟩ hd
    refine ⟨n.toList.takeWhile isNameStart, n.toList.dropWhile isNameStart ++ t,
      ⟨by simp [hn, hc], by rw [← List.append_assoc, hsplit],
        fun d hd => List.all_eq_true.mp List.all_takeWhile d hd, fun d hd => ?_⟩,
      n.toList.dropWhile isNameStart, t,
      ⟨rfl, fun d hd => hall d (hsplit ▸ List.mem_append_right _ hd), hstop⟩,
      by rw [hsplit, String.ofList_toList], rfl⟩
    -- the run of starting characters ends at the first other one, inside the name or behind it
    cases hrest : n.toList.dropWhile isNameStart with
    | nil =>
      rw [hrest, List.nil_append] at hd
      have hd' := hstop d hd
      cases hs : isNameStart d with
      | false => rfl
      | true => rw [isNameChar_of_isNameStart hs] at hd'; exact absurd hd' (by decide)
    | cons b bs =>
      have h := List.head?_dropWhile_not isNameStart n.toList
      rw [hrest] at h hd
      obtain rfl : b = d := by simpa using hd
      simpa using h

theorem keyword_eq_done {w : String} {s t : List Char} {u : Unit} :
    keyword w s = .done u t ↔ Word w s t := by
  simp only [keyword, bind_eq_done, exactly_eq_done, notBefore_eq_done, Word, EndsBefore]
  constructor
  · rintro ⟨_, r, rfl, rfl, h⟩
    exact ⟨rfl, h⟩
  · rintro ⟨rfl, h⟩
    exact ⟨(), t, rfl, rfl, h⟩

theorem neverCommits_keyword (w : String) : NeverCommits (keyword w) :=
  (neverCommits_exactly w).bind fun _ => neverCommits_notBefore isNameChar

/-- A text starts with one name at most. -/
theorem name_unique {s t t' : List Char} {n n' : String} (h : Name s n t) (h' : Name s n' t') :
    n = n' ∧ t = t' := by
  have h₁ := name_eq_done.mpr h
  rw [name_eq_done.mpr h'] at h₁
  obtain ⟨rfl, rfl⟩ : n' = n ∧ t' = t := by simpa using h₁
  exact ⟨rfl, rfl⟩

theorem Word.name {w : String} {s t : List Char} (h : Word w s t) (hw : IsName w) : Name s w t :=
  ⟨hw, h⟩

theorem Name.head {s t : List Char} {n : String} (h : Name s n t) :
    ∃ c r, s = c :: r ∧ isNameStart c = true := by
  obtain ⟨⟨c, cs, hn, hc, -⟩, rfl, -⟩ := h
  exact ⟨c, cs ++ t, by simp [hn], hc⟩

@[simp] theorem doubled_nil : doubled [] = [] := rfl

@[simp] theorem doubled_quote (cs : List Char) :
    doubled ('\x27' :: cs) = '\x27' :: '\x27' :: doubled cs := by simp [doubled]

theorem doubled_cons_of_ne {c : Char} (h : c ≠ '\x27') (cs : List Char) :
    doubled (c :: cs) = c :: doubled cs := by simp [doubled, h]

theorem singleQuotedRest_eq_done {s cs t : List Char} :
    singleQuotedRest s = .done cs t ↔ s = doubled cs ++ '\x27' :: t ∧ t.head? ≠ some '\x27' := by
  constructor
  · intro h
    fun_induction singleQuotedRest s generalizing cs t with
    | case1 | case4 | case7 => simp at h
    | case2 =>
      obtain ⟨rfl, rfl⟩ : [] = cs ∧ [] = t := by simpa using h
      simp
    | case3 rest ds after hds ih =>
      obtain ⟨rfl, rfl⟩ : '\x27' :: ds = cs ∧ after = t := by simpa using h
      obtain ⟨rfl, hstop⟩ := ih hds
      exact ⟨by simp, hstop⟩
    | case5 d rest hd =>
      obtain ⟨rfl, rfl⟩ : [] = cs ∧ d :: rest = t := by simpa using h
      exact ⟨rfl, by simpa using hd⟩
    | case6 d rest hd ds after hds ih =>
      obtain ⟨rfl, rfl⟩ : d :: ds = cs ∧ after = t := by simpa using h
      obtain ⟨rfl, hstop⟩ := ih hds
      exact ⟨by rw [doubled_cons_of_ne hd, List.cons_append], hstop⟩
  · rintro ⟨rfl, h⟩
    induction cs with
    | nil =>
      cases t with
      | nil => rfl
      | cons d t =>
        have hd : d ≠ '\x27' := by simpa using h
        simp [singleQuotedRest, hd]
    | cons c cs ih =>
      by_cases hc : c = '\x27'
      · subst hc
        simp [singleQuotedRest, ih]
      · rw [doubled_cons_of_ne hc, List.cons_append, singleQuotedRest.eq_def]
        simp [hc, ih]

/-- A character behind a backslash is decoded or kept, never both. -/
theorem DoubleQuotedText.escape {body cs : List Char} (h : DoubleQuotedText body cs) (c : Char) :
    DoubleQuotedText ('\\' :: c :: body) (escaped c ++ cs) := by
  by_cases hq : c = '\x22'
  · subst hq; exact h.quote
  by_cases hb : c = '\\'
  · subst hb; exact h.backslash
  by_cases hn : c = 'n'
  · subst hn; exact h.newline
  by_cases ht : c = 't'
  · subst ht; exact h.tab
  simpa [escaped, hq, hb, hn, ht] using h.kept (by simp [hq, hb, hn, ht])

theorem doubleQuotedRest_eq_done {s cs t : List Char} :
    doubleQuotedRest s = .done cs t ↔
      ∃ body, DoubleQuotedText body cs ∧ s = body ++ '\x22' :: t := by
  constructor
  · intro h
    fun_induction doubleQuotedRest s generalizing cs t with
    | case1 | case3 | case5 | case7 => simp at h
    | case2 rest =>
      obtain ⟨rfl, rfl⟩ : [] = cs ∧ rest = t := by simpa using h
      exact ⟨[], .nil, rfl⟩
    | case4 d rest ds after hds hq ih =>
      obtain ⟨rfl, rfl⟩ : escaped d ++ ds = cs ∧ after = t := by simpa using h
      obtain ⟨body, hbody, rfl⟩ := ih hds
      exact ⟨'\\' :: d :: body, hbody.escape d, rfl⟩
    | case6 c rest hq hb ds after hds ih =>
      obtain ⟨rfl, rfl⟩ : c :: ds = cs ∧ after = t := by simpa using h
      obtain ⟨body, hbody, rfl⟩ := ih hds
      exact ⟨c :: body, .plain hq hb hbody, rfl⟩
  · rintro ⟨body, h, rfl⟩
    induction h with
    | nil => simp [doubleQuotedRest.eq_def]
    | plain hq hb _ ih =>
      rw [List.cons_append, doubleQuotedRest.eq_def]
      simp [hq, hb, ih]
    | quote _ ih | backslash _ ih | newline _ ih | tab _ ih => simp [doubleQuotedRest, escaped, ih]
    | kept hc _ ih =>
      simp only [List.mem_cons, List.not_mem_nil, or_false, not_or] at hc
      simp [doubleQuotedRest, escaped, hc, ih]

end Rulebook.Condition.Grammar
