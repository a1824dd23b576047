import Rulebook.Proofs.Grammar.Levels

/-!
# What may follow a phrase

A phrase consumes something, so what follows it is shorter. A character that begins an operator or
an access continues phrases of one level only; text behind a phrase stops a level if it begins,
behind blanks, with no character that continues this level or a tighter one. A level whose text
behind stops it has nothing to resume.
-/
namespace Rulebook.Condition.Grammar
open Text Text.Parser

theorem Name.length_lt {s t : List Char} {n : String} (h : Name s n t) : t.length < s.length := by
  obtain ⟨⟨c, cs, hn, -, -⟩, rfl, -⟩ := h
  rw [List.length_append, hn, List.length_cons]
  omega

theorem DigitRun.length_lt {s ds t : List Char} (h : DigitRun s ds t) : t.length < s.length := by
  obtain ⟨hne, rfl, -, -⟩ := h
  have hpos := List.length_pos_iff.mpr hne
  rw [List.length_append]
  omega

theorem LiteralText.length_lt {s t : List Char} {v : Value} (h : LiteralText s v t) :
    t.length < s.length := by
  cases h with
  | singleQuoted | doubleQuoted => simp only [List.length_cons, List.length_append]; omega
  | float front behind =>
    have h₁ := front.length_lt
    have h₂ := behind.length_lt
    rw [List.length_cons] at h₁
    omega
  | int digits => exact digits.length_lt
  | yes word | no word | null word => exact (word.name (isName_of_reserved (by decide))).length_lt

theorem symbol_toList (op : BinaryOp) : ∃ c r, op.symbol.toList = c :: r := by
  cases op <;> exact ⟨_, _, rfl⟩

theorem Joins.length_lt {l : Level} {s t : List Char} {join : Expr → Expr → Expr}
    (h : Joins l s join t) : t.length < s.length := by
  cases h with
  | bars | ampersands => simp only [List.length_cons]; omega
  | or word | and word => exact (word.name (isName_of_reserved (by decide))).length_lt
  | @symbol _ op =>
    obtain ⟨c, r, hop⟩ := symbol_toList op
    rw [hop, List.length_append, List.length_cons]
    omega

mutual

/-- A phrase is not empty. -/
theorem Derives.length_lt {l : Level} {s t : List Char} {e : Expr} :
    Derives l s e t → t.length < s.length
  | .tighter _ h => h.length_lt
  | .choice condition mark first colon second => by
    have h₁ := condition.length_lt
    have h₂ := mark.length_lt
    have h₃ := first.length_lt
    have h₄ := colon.length_lt
    have h₅ := second.length_lt
    omega
  | .joined _ first gap op second _ => by
    have h₁ := first.length_lt
    have h₂ := gap.length_le
    have h₃ := op.length_lt
    have h₄ := second.length_lt
    omega
  | .comparison first _ gap second => by
    have h₁ := first.length_lt
    have h₂ := gap.length_le
    have h₃ := second.length_lt
    rw [List.length_append] at h₂
    omega
  | .signed gap sign operand => by
    have h₁ := gap.length_le
    have h₂ := sign.length_lt
    have h₃ := operand.length_lt
    omega
  | .field target point name => by
    have h₁ := target.length_lt
    have h₂ := point.length_lt
    have h₃ := name.length_lt
    omega
  | .call target point name opening arguments closing => by
    have h₁ := target.length_lt
    have h₂ := point.length_lt
    have h₃ := name.length_lt
    have h₄ := opening.length_lt
    have h₅ := arguments.length_le
    have h₆ := closing.length_lt
    omega
  | .index target opening position closing => by
    have h₁ := target.length_lt
    have h₂ := opening.length_lt
    have h₃ := position.length_lt
    have h₄ := closing.length_lt
    omega
  | .enclosed opening inside closing => by
    have h₁ := opening.length_lt
    have h₂ := inside.length_lt
    have h₃ := closing.length_lt
    omega
  | .list opening items closing => by
    have h₁ := opening.length_lt
    have h₂ := items.length_le
    have h₃ := closing.length_lt
    omega
  | .literal gap text => Nat.lt_of_lt_of_le text.length_lt gap.length_le
  | .marked mark name => by
    have h₁ := mark.length_lt
    have h₂ := name.length_lt
    omega
  | .bare gap name _ => Nat.lt_of_lt_of_le name.length_lt gap.length_le

theorem Items.length_le {s t : List Char} {es : List Expr} : Items s es t → t.length ≤ s.length
  | .none => Nat.le_refl _
  | .last item => Nat.le_of_lt item.length_lt
  | .more item comma others => by
    have h₁ := item.length_lt
    have h₂ := comma.length_lt
    have h₃ := others.length_le
    omega

end

/-- No literal begins like anything that is not a quote, a digit or a name. -/
theorem LiteralText.head {s t : List Char} {v : Value} (h : LiteralText s v t) :
    ∃ c r, s = c :: r ∧ (c = '\x27' ∨ c = '\x22' ∨ c.isDigit = true ∨ isNameStart c = true) := by
  cases h with
  | singleQuoted => exact ⟨_, _, rfl, .inl rfl⟩
  | doubleQuoted => exact ⟨_, _, rfl, .inr (.inl rfl)⟩
  | float front =>
    obtain ⟨c, r, rfl, hc⟩ := front.head
    exact ⟨c, r, rfl, .inr (.inr (.inl hc))⟩
  | int digits =>
    obtain ⟨c, r, rfl, hc⟩ := digits.head
    exact ⟨c, r, rfl, .inr (.inr (.inl hc))⟩
  | yes word | no word | null word =>
    obtain ⟨c, r, rfl, hc⟩ := word.head (by decide)
    exact ⟨c, r, rfl, .inr (.inr (.inr hc))⟩

theorem LiteralText.head_ne {c d : Char} {r t : List Char} {v : Value}
    (h : LiteralText (c :: r) v t) (hq : d ≠ '\x27' ∧ d ≠ '\x22') (hd : d.isDigit = false)
    (hn : isNameStart d = false) : c ≠ d := by
  obtain ⟨c', r', heq, hc⟩ := h.head
  obtain ⟨rfl, -⟩ : c = c' ∧ r = r' := by simpa using heq
  rintro rfl
  rcases hc with rfl | rfl | hc | hc
  · exact hq.1 rfl
  · exact hq.2 rfl
  · simp [hd] at hc
  · simp [hn] at hc

/-- Literals do not begin with a blank. -/
theorem LiteralText.endsBefore {s t : List Char} {v : Value} (h : LiteralText s v t) :
    EndsBefore isBlank s := by
  obtain ⟨c, r, rfl, hc⟩ := h.head
  rw [endsBefore_cons]
  rcases hc with rfl | rfl | hc | hc
  · decide
  · decide
  · exact isBlank_of_isNameChar (by simp [isNameChar, Char.isAlphanum, hc])
  · exact isBlank_of_isNameChar (isNameChar_of_isNameStart hc)

theorem Name.endsBefore {s t : List Char} {n : String} (h : Name s n t) : EndsBefore isBlank s := by
  obtain ⟨c, r, rfl, hc⟩ := h.head
  exact endsBefore_cons.mpr (isBlank_of_isNameChar (isNameChar_of_isNameStart hc))

/-- The level of which a character continues a phrase, if there is one. An opening parenthesis
continues a name to a call, so it may follow no phrase at all. -/
def continued : Char → Option Level
  | '(' => some .primary
  | '.' | '[' => some .accessed
  | '*' | '/' | '%' => some .product
  | '+' | '-' => some .sum
  | '<' | '>' => some .comparison
  | '=' | '!' => some .equality
  | '&' | 'a' => some .conjunction
  | '|' | 'o' => some .disjunction
  | '?' => some .choice
  | _ => none

namespace Level

/-- The level of the last operand that the parser of a level has read when it looks for more. A
choice and a comparison are complete after their last operand. -/
def inner : Level → Level
  | choice => choice
  | disjunction => conjunction
  | conjunction => equality
  | equality => comparison
  | comparison => comparison
  | sum => product
  | product => signed
  | signed => signed
  | accessed => primary
  | primary => primary

theorem rank_le_inner (l : Level) : l.rank ≤ l.inner.rank := by cases l <;> decide

theorem inner_le_rank {l l' : Level} (below : l.tighter = some l') : l.inner.rank ≤ l'.rank := by
  cases l <;> simp only [tighter, Option.some.injEq, reduceCtorEq] at below
  all_goals subst below; decide

end Level

/-- The text may stand behind a phrase of the level. -/
structure Stops (l : Level) (t : List Char) : Prop where
  looser : ∀ c ∈ (dropBlanks t).head?, ∀ l' ∈ continued c, l'.rank < l.rank
  noFraction : NoFraction t

theorem Stops.mono {l l' : Level} {t : List Char} (h : Stops l t) (hl : l.rank ≤ l'.rank) :
    Stops l' t :=
  ⟨fun c hc k hk => Nat.lt_of_lt_of_le (h.looser c hc k hk) hl, h.noFraction⟩

/-- Text that goes on with a character of a looser level, other than a point. -/
theorem stops_of_blanks {l : Level} {c : Char} {t u : List Char} (h : Blanks t (c :: u))
    (hc : isBlank c = false) (hpoint : c ≠ '.') (hl : ∀ l' ∈ continued c, l'.rank < l.rank) :
    Stops l t := by
  have hdrop := h.eq_cons hc
  refine ⟨fun d hd k hk => ?_, fun d v ht => ?_⟩
  · obtain rfl : c = d := by simpa [hdrop] using hd
    exact hl k hk
  · subst ht
    rw [dropBlanks_of_endsBefore (by simp [isBlank])] at hdrop
    obtain ⟨rfl, -⟩ : '.' = c ∧ d :: v = u := by simpa using hdrop
    exact absurd rfl hpoint

/-- A character that continues no level stops every level. -/
theorem stops_of_closing {l : Level} {c : Char} {t u : List Char} (h : Blanks t (c :: u))
    (hc : isBlank c = false := by decide) (hnone : continued c = none := by decide) :
    Stops l t := by
  refine stops_of_blanks h hc ?_ (by simp [hnone])
  rintro rfl
  simp [continued] at hnone

/-- Nothing but blanks stops every level. -/
theorem stops_of_end {l : Level} {t : List Char} (h : Blanks t []) : Stops l t := by
  have hdrop : dropBlanks t = [] := h.dropBlanks_eq
  refine ⟨by simp [hdrop], fun d u ht => ?_⟩
  subst ht
  rw [dropBlanks_of_endsBefore (by simp [isBlank])] at hdrop
  simp at hdrop

/-- Before a point and a name stands a whole primary. -/
theorem stops_of_point {t m u : List Char} {n : String} (point : Blanks t ('.' :: m))
    (name : Name m n u) : Stops .primary t := by
  have hdrop := point.eq_cons (by decide)
  refine ⟨fun d hd k hk => ?_, fun d v ht => ?_⟩
  · obtain rfl : '.' = d := by simpa [hdrop] using hd
    obtain rfl : Level.accessed = k := by simpa [continued] using hk
    decide
  · subst ht
    rw [dropBlanks_of_endsBefore (by simp [isBlank])] at hdrop
    obtain rfl : d :: v = m := by simpa using hdrop
    obtain ⟨c, r, heq, hc⟩ := name.head
    obtain ⟨rfl, -⟩ : d = c ∧ v = r := by simpa using heq
    exact isDigit_of_isNameStart hc

/-- What stops a level does not begin with a character that continues it or a tighter one. -/
theorem Stops.head_ne {l l' : Level} {c : Char} {t : List Char} (h : Stops l t)
    (hc : continued c = some l') (hl : l.rank ≤ l'.rank) : (dropBlanks t).head? ≠ some c := by
  intro hd
  have hlt := h.looser c hd l' hc
  omega

theorem Joins.head {l : Level} {s t : List Char} {join : Expr → Expr → Expr}
    (h : Joins l s join t) :
    ∃ c r, s = c :: r ∧ continued c = some l ∧ isBlank c = false ∧ c ≠ '.' := by
  cases h with
  | bars | ampersands => exact ⟨_, _, rfl, rfl, by decide, by decide⟩
  | or word | and word =>
    obtain ⟨rfl, -⟩ := word
    exact ⟨_, _, rfl, rfl, by decide, by decide⟩
  | symbol mem =>
    cases l <;> simp only [Level.symbols, List.mem_cons, List.not_mem_nil, or_false] at mem
    all_goals rcases mem with rfl | rfl | rfl
    all_goals exact ⟨_, _, rfl, rfl, by decide, by decide⟩

/-- At a level that chains the last operand is of the next tighter level. -/
theorem Joins.inner_eq {l l' : Level} {s t : List Char} {join : Expr → Expr → Expr}
    (h : Joins l s join t) (below : l.tighter = some l') : l.inner = l' := by
  cases h with
  | or | bars | and | ampersands => simpa [Level.tighter, Level.inner] using below
  | symbol mem => cases l <;> simp_all [Level.symbols, Level.tighter, Level.inner]

theorem Sign.endsBefore {s t : List Char} {op : UnaryOp} (h : Sign s op t) :
    EndsBefore isBlank s := by
  cases h with
  | bang | minus => simp [isBlank]
  | word word => exact (word.name (isName_of_reserved (by decide))).endsBefore

theorem comparison_head {op : BinaryOp} (mem : op ∈ comparisons) (t : List Char) :
    ∃ c r, op.symbol.toList ++ t = c :: r ∧ continued c = some .comparison ∧
      isBlank c = false ∧ c ≠ '.' := by
  simp only [comparisons, List.mem_cons, List.not_mem_nil, or_false] at mem
  rcases mem with rfl | rfl | rfl | rfl <;> exact ⟨_, _, rfl, rfl, by decide, by decide⟩

theorem blanks_bind_refuses {α : Type} {p : Phrase α} {s : List Char}
    (h : Refuses p (dropBlanks s)) : Refuses (blanks >>= fun _ => p) s :=
  refuses_bind (blanks_apply s) h

theorem operandStep_refuses {ω : Type} {op : Phrase ω} (operand : Phrase Expr) {s : List Char}
    (h : Refuses op (dropBlanks s)) : Refuses (operandStep op operand) s :=
  blanks_bind_refuses (h.bind _)

theorem resumeGrouped_of_refuses {ω : Type} {op : Phrase ω} (operand : Phrase Expr)
    (join : ω → Expr → Expr → Expr) {s : List Char} (h : Refuses op (dropBlanks s)) (e : Expr) :
    resumeGrouped op operand join e s = .done e s := by
  rw [resumeGrouped, bind_of_done (operandStep_refuses operand h).many_eq]
  rfl

section Levels

variable (nested : Phrase Expr)

theorem access_refuses {s : List Char} (hpoint : (dropBlanks s).head? ≠ some '.')
    (hbracket : (dropBlanks s).head? ≠ some '[') : Refuses (access nested) s :=
  blanks_bind_refuses (((refuses_char hpoint).bind _).orElse ((refuses_char hbracket).bind _))

/-- A level whose text behind stops it is complete. -/
theorem resume_of_stops {l : Level} {t : List Char} (h : Stops l t) (e : Expr) :
    resume nested l e t = .done e t := by
  have hop {ω : Type} {op : Phrase ω} (mild : NeverCommits op)
      (hjoins : ∀ o s u, op s = .done o u → ∃ join, Joins l s join u) :
      Refuses op (dropBlanks t) := by
    refine mild.refuses fun o u hu => ?_
    obtain ⟨join, hj⟩ := hjoins o _ u hu
    obtain ⟨c, r, hs, hc, -⟩ := hj.head
    exact h.head_ne hc (Nat.le_refl _) (by simp [hs])
  cases l with
  | choice =>
    have hmark : Refuses (choiceStep nested) t :=
      blanks_bind_refuses ((refuses_char (h.head_ne (c := '?') rfl (Nat.le_refl _))).bind _)
    exact bind_of_done hmark.optional_eq _
  | disjunction =>
    exact resumeGrouped_of_refuses (conjunction nested) (fun _ => .or)
      (hop neverCommits_orOp fun _ _ _ ho => ⟨_, joins_of_orOp ho⟩) e
  | conjunction =>
    exact resumeGrouped_of_refuses (equality nested) (fun _ => .and)
      (hop neverCommits_andOp fun _ _ _ ho => ⟨_, joins_of_andOp ho⟩) e
  | equality | sum | product =>
    exact resumeGrouped_of_refuses _ _
      (hop (neverCommits_symbol _) fun _ _ _ ho => ⟨_, joins_of_symbol ho⟩) e
  | comparison =>
    have hsymbol : Refuses (symbol comparisons) (dropBlanks t) := by
      refine (neverCommits_symbol _).refuses fun op u hu => ?_
      obtain ⟨mem, hs⟩ := mem_of_symbol hu
      obtain ⟨c, r, hcons, hc, -⟩ := comparison_head mem u
      exact h.head_ne hc (Nat.le_refl _) (by simp [hs, hcons])
    exact bind_of_done (operandStep_refuses _ hsymbol).optional_eq _
  | accessed =>
    have haccess : Refuses (access nested) t :=
      access_refuses nested (h.head_ne (c := '.') rfl (Nat.le_refl _))
        (h.head_ne (c := '[') rfl (Nat.le_refl _))
    exact bind_of_done haccess.many_eq _
  | signed | primary => rfl

/-- A phrase of a primary begins behind blanks with one of these characters. -/
def beginsPrimary (c : Char) : Bool :=
  c = '(' || c = '\x7b' || c = '\x27' || c = '\x22' || c = '#' || c.isDigit || isNameStart c

theorem primary_refuses {c : Char} {r s : List Char} (hs : dropBlanks s = c :: r)
    (hc : beginsPrimary c = false) : Refuses (primary nested) s := by
  simp only [beginsPrimary, Bool.or_eq_false_iff, decide_eq_false_iff_not] at hc
  obtain ⟨⟨⟨⟨⟨⟨hparen, hbrace⟩, hsingle⟩, hdouble⟩, hmark⟩, hdigit⟩, hname⟩ := hc
  have hvar : Refuses var (c :: r) := by
    have hmild : NeverCommits (accept name fun n => if n ∈ reserved then none else some n) :=
      NeverCommits.accept ((neverCommits_takeWhile1 _).bind fun _ =>
        NeverCommits.bind (fun _ _ _ h => by simp [takeWhile] at h)
          fun _ => neverCommits_succeed _) _
    refine refuses_bind (refuses_char (by simpa using hmark)).optional_eq ?_
    refine (hmild.refuses fun n t hn => ?_).bind _
    obtain ⟨n', hn', -⟩ := accept_eq_done.mp hn
    obtain ⟨d, r', heq, hd⟩ := (name_eq_done.mp hn').head
    obtain ⟨rfl, -⟩ : c = d ∧ r = r' := by simpa using heq
    simp [hname] at hd
  have hliteral := literal_refuses (r := r) hsingle hdouble hdigit
    fun w hw t => not_word_of_head hname hw t
  refine blanks_bind_refuses ?_
  rw [hs]
  refine Refuses.expecting ?_ _
  refine ((refuses_char (by simpa using hparen)).bind _).orElse ?_
  refine ((refuses_char (by simpa using hbrace)).bind _).orElse ?_
  exact (hliteral.bind _).orElse hvar

theorem signStep_refuses {s : List Char} (h : ∀ op t, ¬ Sign (dropBlanks s) op t) :
    Refuses signStep s :=
  neverCommits_signStep.refuses fun op t hs => h op t (signStep_eq_done.mp hs)

/-- Where no sign is, the signed level is the level below. -/
theorem signed_of_no_sign {s : List Char} (h : ∀ op t, ¬ Sign (dropBlanks s) op t) :
    signed nested s = (accessed nested >>= succeed) s := by
  rw [signed_eq_bind, bind_of_done (signStep_refuses h).many_eq]
  rfl

/-- No phrase begins at a closing character. -/
theorem phrase_refuses {c : Char} {r s : List Char} (hs : dropBlanks s = c :: r)
    (hc : c ∈ [')', '\x7d']) (l : Level) : Refuses (phrase nested l) s := by
  have hclose : c = ')' ∨ c = '\x7d' := by simpa using hc
  induction l using Level.of_tighter with
  | tightest =>
    refine primary_refuses nested hs ?_
    rcases hclose with rfl | rfl <;> decide
  | step l l' below ih =>
    by_cases hl : l = .signed
    · subst hl
      obtain rfl : l' = .accessed := by simpa [Level.tighter] using below.symm
      have hsign : ∀ op t, ¬ Sign (dropBlanks s) op t := by
        intro op t h
        rw [hs] at h
        rcases hclose with rfl | rfl
        all_goals
          cases h with
          | word word => exact not_word_of_head (by decide) (by decide) t word
      obtain ⟨rest, expected, h⟩ := ih.bind succeed
      exact ⟨rest, expected, (signed_of_no_sign nested hsign).trans h⟩
    · rw [phrase_eq_bind nested below hl]
      exact ih.bind _

end Levels

/-- A phrase begins behind blanks like a primary or with a sign. -/
theorem Derives.begins {l : Level} {s t : List Char} {e : Expr} : Derives l s e t →
    ∃ c r, dropBlanks s = c :: r ∧ (beginsPrimary c = true ∨ c = '!' ∨ c = '-')
  | .tighter _ h => h.begins
  | .choice condition _ _ _ _ => condition.begins
  | .joined _ first _ _ _ _ => first.begins
  | .comparison first _ _ _ => first.begins
  | .signed gap sign _ => by
    cases sign with
    | bang => exact ⟨_, _, gap.eq_cons (by decide), .inr (.inl rfl)⟩
    | minus => exact ⟨_, _, gap.eq_cons (by decide), .inr (.inr rfl)⟩
    | word word =>
      obtain ⟨rfl, -⟩ := word
      exact ⟨_, _, gap.eq_cons (by decide), .inl (by decide)⟩
  | .field target _ _ => target.begins
  | .call target _ _ _ _ _ => target.begins
  | .index target _ _ _ => target.begins
  | .enclosed opening _ _ => ⟨_, _, opening.eq_cons (by decide), .inl (by decide)⟩
  | .list opening _ _ => ⟨_, _, opening.eq_cons (by decide), .inl (by decide)⟩
  | .literal gap text => by
    obtain ⟨c, r, rfl, hc⟩ := text.head
    refine ⟨c, r, gap.eq_cons (endsBefore_cons.mp text.endsBefore), .inl ?_⟩
    rcases hc with rfl | rfl | hc | hc
    · decide
    · decide
    · simp [beginsPrimary, hc]
    · simp [beginsPrimary, hc]
  | .marked mark _ => ⟨_, _, mark.eq_cons (by decide), .inl (by decide)⟩
  | .bare gap name _ => by
    obtain ⟨c, r, rfl, hc⟩ := name.head
    exact ⟨c, r, gap.eq_cons (endsBefore_cons.mp name.endsBefore),
      .inl (by simp [beginsPrimary, hc])⟩

/-- No expression begins with an equality sign. -/
theorem Derives.head_ne_equals {l : Level} {s t : List Char} {e : Expr} (h : Derives l s e t) :
    s.head? ≠ some '=' := by
  intro hs
  obtain ⟨r, rfl⟩ := List.head?_eq_some_iff.mp hs
  obtain ⟨c, r', heq, hc⟩ := h.begins
  rw [dropBlanks_of_endsBefore (by simp [isBlank])] at heq
  obtain ⟨rfl, -⟩ : '=' = c ∧ r = r' := by simpa using heq
  revert hc
  decide

theorem Sign.begins {c : Char} {r t : List Char} {op : UnaryOp} (h : Sign (c :: r) op t) :
    c = '!' ∨ c = '-' ∨ Word "not" (c :: r) t := by
  cases h with
  | bang => exact .inl rfl
  | minus => exact .inr (.inl rfl)
  | word word => exact .inr (.inr word)

theorem not_sign {c : Char} {r t : List Char} {op : UnaryOp} (hc : c ≠ '!' ∧ c ≠ '-')
    (hw : ¬ Word "not" (c :: r) t) : ¬ Sign (c :: r) op t := by
  intro h
  rcases h.begins with h | h | h
  · exact hc.1 h
  · exact hc.2 h
  · exact hw h

/-- The word of negation begins no literal. -/
theorem LiteralText.not_word {s t u : List Char} {v : Value} (h : LiteralText s v t) :
    ¬ Word "not" s u := by
  intro hw
  obtain ⟨c, r, rfl, hc⟩ := hw.head (by decide)
  cases h with
  | singleQuoted | doubleQuoted => revert hc; decide
  | float front =>
    obtain ⟨d, r', heq, hd⟩ := front.head
    obtain ⟨rfl, -⟩ : c = d ∧ r = r' := by simpa using heq
    simp [isDigit_of_isNameStart hc] at hd
  | int digits =>
    obtain ⟨d, r', heq, hd⟩ := digits.head
    obtain ⟨rfl, -⟩ : c = d ∧ r = r' := by simpa using heq
    simp [isDigit_of_isNameStart hc] at hd
  | yes word | no word | null word =>
    exact absurd (hw.unique word (by decide) (by decide)) (by decide)

/-- The levels below the signed one. -/
def Level.BelowSigned (l : Level) : Prop := l = .accessed ∨ l = .primary

theorem Level.BelowSigned.tighter {l l' : Level} (hl : l.BelowSigned)
    (below : l.tighter = some l') : l'.BelowSigned := by
  rcases hl with rfl | rfl
  · exact .inr (Option.some.inj below).symm
  · exact nomatch below

theorem Joins.not_belowSigned {l : Level} {s t : List Char} {join : Expr → Expr → Expr}
    (h : Joins l s join t) : ¬ l.BelowSigned := by
  rintro (rfl | rfl)
  all_goals
    cases h with
    | symbol mem => simp [Level.symbols] at mem

/-- No sign begins a phrase of the levels below the signed one. -/
theorem Derives.no_sign {l : Level} {s t : List Char} {e : Expr} : Derives l s e t →
    l.BelowSigned → ∀ (op : UnaryOp) (u : List Char), ¬ Sign (dropBlanks s) op u
  | .tighter below h, hl, op, u => h.no_sign (hl.tighter below) op u
  | .choice .., hl, _, _ | .comparison .., hl, _, _ | .signed .., hl, _, _ => by
    rcases hl with h | h <;> cases h
  | .joined _ _ _ joins _ _, hl, _, _ => absurd hl joins.not_belowSigned
  | .field target _ _, _, op, u | .call target _ _ _ _ _, _, op, u
  | .index target _ _ _, _, op, u => target.no_sign (.inl rfl) op u
  | .enclosed opening _ _, _, op, u
  | .list opening _ _, _, op, u
  | .marked opening _, _, op, u => by
    rw [opening.eq_cons (by decide)]
    exact not_sign (by decide) (not_word_of_head (by decide) (by decide) u)
  | .literal gap text, _, op, u => by
    obtain ⟨c, r, rfl, hc⟩ := text.head
    rw [gap.eq_cons (endsBefore_cons.mp text.endsBefore)]
    exact not_sign ⟨text.head_ne (by decide) (by decide) (by decide),
      text.head_ne (by decide) (by decide) (by decide)⟩ text.not_word
  | .bare gap name free, _, op, u => by
    obtain ⟨c, r, rfl, hc⟩ := name.head
    rw [gap.eq_cons (endsBefore_cons.mp name.endsBefore)]
    exact not_sign ⟨isNameStart_ne hc (by decide), isNameStart_ne hc (by decide)⟩
      (name.not_word free (by decide) u)

end Rulebook.Condition.Grammar
