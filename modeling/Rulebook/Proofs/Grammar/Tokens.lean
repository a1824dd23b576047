import Rulebook.Proofs.Grammar.Words

/-!
# Reading literals, signs and operators

A literal parser tries its alternatives in order. The order matters in one place: digits in front
of a point are an integer only if no digit follows the point. No other alternative hides a later
one, because the first characters or the whole words differ.
-/
namespace Rulebook.Condition.Grammar
open Text Text.Parser

/-- The text does not begin with a point and a digit. -/
def NoFraction (t : List Char) : Prop := ∀ d u, t = '.' :: d :: u → d.isDigit = false

theorem isName_of_reserved {w : String} (h : w ∈ reserved) : IsName w := by
  simp only [reserved, List.mem_cons, List.not_mem_nil, or_false] at h
  rcases h with rfl | rfl | rfl | rfl | rfl | rfl
  all_goals exact ⟨_, _, rfl, by decide, List.all_eq_true.mp (by decide)⟩

/-- A reserved word does not begin a name that is not reserved. -/
theorem Name.not_word {s t : List Char} {n w : String} (h : Name s n t) (hn : n ∉ reserved)
    (hw : w ∈ reserved) (u : List Char) : ¬ Word w s u := by
  intro hu
  obtain ⟨rfl, -⟩ := name_unique h (hu.name (isName_of_reserved hw))
  exact hn hw

theorem Word.unique {s t t' : List Char} {w w' : String} (h : Word w s t) (h' : Word w' s t')
    (hw : w ∈ reserved) (hw' : w' ∈ reserved) : w = w' :=
  (name_unique (h.name (isName_of_reserved hw)) (h'.name (isName_of_reserved hw'))).1

theorem Word.head {s t : List Char} {w : String} (h : Word w s t) (hw : w ∈ reserved) :
    ∃ c r, s = c :: r ∧ isNameStart c = true := (h.name (isName_of_reserved hw)).head

/-- What does not begin like a name begins with no reserved word. -/
theorem not_word_of_head {c : Char} {r : List Char} (hc : isNameStart c = false) {w : String}
    (hw : w ∈ reserved) (t : List Char) : ¬ Word w (c :: r) t := by
  intro h
  obtain ⟨d, r', heq, hd⟩ := h.head hw
  obtain ⟨rfl, rfl⟩ : c = d ∧ r = r' := by simpa using heq
  simp [hc] at hd

theorem DigitRun.head {s ds t : List Char} (h : DigitRun s ds t) :
    ∃ c r, s = c :: r ∧ c.isDigit = true := by
  obtain ⟨hne, rfl, hds, -⟩ := h
  obtain ⟨d, ds, rfl⟩ := List.exists_cons_of_ne_nil hne
  exact ⟨d, ds ++ t, rfl, hds d (by simp)⟩

theorem takeWhile1_isDigit_eq_done {s ds t : List Char} :
    (takeWhile1 Char.isDigit : Phrase (List Char)) s = .done ds t ↔ DigitRun s ds t :=
  takeWhile1_eq_done

theorem singleQuoted_eq_done {s t : List Char} {v : Value} :
    singleQuoted s = .done v t ↔ ∃ cs, t.head? ≠ some '\x27' ∧
      s = '\x27' :: (doubled cs ++ '\x27' :: t) ∧ v = .string (String.ofList cs) := by
  simp only [singleQuoted, bind_eq_done, char_eq_done, singleQuotedRest_eq_done, succeed_apply,
    Outcome.done.injEq]
  constructor
  · rintro ⟨_, _, rfl, cs, _, ⟨rfl, h⟩, rfl, rfl⟩
    exact ⟨cs, h, rfl, rfl⟩
  · rintro ⟨cs, h, rfl, rfl⟩
    exact ⟨(), _, rfl, cs, t, ⟨rfl, h⟩, rfl, rfl⟩

theorem doubleQuoted_eq_done {s t : List Char} {v : Value} :
    doubleQuoted s = .done v t ↔ ∃ body cs, DoubleQuotedText body cs ∧
      s = '\x22' :: (body ++ '\x22' :: t) ∧ v = .string (String.ofList cs) := by
  simp only [doubleQuoted, bind_eq_done, char_eq_done, doubleQuotedRest_eq_done, succeed_apply,
    Outcome.done.injEq]
  constructor
  · rintro ⟨_, _, rfl, cs, _, ⟨body, h, rfl⟩, rfl, rfl⟩
    exact ⟨body, cs, h, rfl, rfl⟩
  · rintro ⟨body, cs, h, rfl, rfl⟩
    exact ⟨(), _, rfl, cs, t, ⟨body, h, rfl⟩, rfl, rfl⟩

theorem floatLiteral_eq_done {s t : List Char} {v : Value} :
    floatLiteral s = .done v t ↔ ∃ whole m fraction, DigitRun s whole ('.' :: m) ∧
      DigitRun m fraction t ∧ v = .float (Decimal.Digits.written whole fraction 0).nearest := by
  simp only [floatLiteral, bind_eq_done, char_eq_done, takeWhile1_isDigit_eq_done, succeed_apply,
    Outcome.done.injEq]
  constructor
  · rintro ⟨whole, _, hw, _, m, rfl, fraction, _, hf, rfl, rfl⟩
    exact ⟨whole, m, fraction, hw, hf, rfl⟩
  · rintro ⟨whole, m, fraction, hw, hf, rfl⟩
    exact ⟨whole, _, hw, (), m, rfl, fraction, t, hf, rfl, rfl⟩

theorem intLiteral_eq_done {s t : List Char} {v : Value} :
    intLiteral s = .done v t ↔ ∃ ds, DigitRun s ds t ∧ Decimal.natOfChars ds < 2 ^ 63 ∧
      v = .int (Int64.ofNat (Decimal.natOfChars ds)) := by
  simp only [intLiteral, accept_eq_done, takeWhile1_isDigit_eq_done]
  constructor
  · rintro ⟨ds, h, hv⟩
    split at hv
    · next range => exact ⟨ds, h, range, by simpa using hv.symm⟩
    · simp at hv
  · rintro ⟨ds, h, range, rfl⟩
    exact ⟨ds, h, if_pos range⟩

theorem wordLiteral_eq_done {w : String} {s t : List Char} {v u : Value} :
    wordLiteral w v s = .done u t ↔ Word w s t ∧ u = v := by
  simp only [wordLiteral, bind_eq_done, keyword_eq_done, succeed_apply, Outcome.done.injEq]
  constructor
  · rintro ⟨_, _, h, rfl, rfl⟩
    exact ⟨h, rfl⟩
  · rintro ⟨h, rfl⟩
    exact ⟨(), t, h, rfl, rfl⟩

theorem literalText_of_literal {s t : List Char} {v : Value} (h : literal s = .done v t) :
    LiteralText s v t := by
  simp only [literal, orElse_eq_done, singleQuoted_eq_done, doubleQuoted_eq_done,
    floatLiteral_eq_done, intLiteral_eq_done, wordLiteral_eq_done] at h
  rcases h with ⟨cs, hstop, rfl, rfl⟩ | ⟨-, h⟩
  · exact .singleQuoted hstop
  rcases h with ⟨body, cs, hbody, rfl, rfl⟩ | ⟨-, h⟩
  · exact .doubleQuoted hbody
  rcases h with ⟨whole, m, fraction, hw, hf, rfl⟩ | ⟨-, h⟩
  · exact .float hw hf
  rcases h with ⟨ds, hds, range, rfl⟩ | ⟨-, h⟩
  · exact .int hds range
  rcases h with ⟨hw, rfl⟩ | ⟨-, ⟨hw, rfl⟩ | ⟨-, hw, rfl⟩⟩
  · exact .yes hw
  · exact .no hw
  · exact .null hw

theorem singleQuoted_refuses {s : List Char} (h : s.head? ≠ some '\x27') : Refuses singleQuoted s :=
  (refuses_char h).bind _

theorem doubleQuoted_refuses {s : List Char} (h : s.head? ≠ some '\x22') : Refuses doubleQuoted s :=
  (refuses_char h).bind _

theorem floatLiteral_refuses {s : List Char}
    (h : ∀ whole m fraction t, DigitRun s whole ('.' :: m) → ¬ DigitRun m fraction t) :
    Refuses floatLiteral s := by
  have hmild : NeverCommits floatLiteral :=
    (neverCommits_takeWhile1 _).bind fun _ => (neverCommits_char '.').bind fun _ =>
      (neverCommits_takeWhile1 _).bind fun _ => neverCommits_succeed _
  refine hmild.refuses fun v t hv => ?_
  obtain ⟨whole, m, fraction, hw, hf, -⟩ := floatLiteral_eq_done.mp hv
  exact h whole m fraction t hw hf

theorem intLiteral_refuses {s : List Char} (h : EndsBefore Char.isDigit s) :
    Refuses intLiteral s := by
  have hmild : NeverCommits intLiteral := (neverCommits_takeWhile1 _).accept _
  refine hmild.refuses fun v t hv => ?_
  obtain ⟨ds, hds, -⟩ := intLiteral_eq_done.mp hv
  obtain ⟨d, r, rfl, hd⟩ := hds.head
  simp [hd] at h

theorem wordLiteral_refuses {w : String} {s : List Char} (h : ∀ t, ¬ Word w s t) (v : Value) :
    Refuses (wordLiteral w v) s := by
  have hmild : NeverCommits (wordLiteral w v) :=
    (neverCommits_keyword w).bind fun _ => neverCommits_succeed v
  exact hmild.refuses fun u t hu => h t (wordLiteral_eq_done.mp hu).1

/-- Without a digit in front no number is read. -/
theorem number_refuses {s : List Char} (h : EndsBefore Char.isDigit s) :
    Refuses floatLiteral s ∧ Refuses intLiteral s := by
  refine ⟨floatLiteral_refuses fun whole m fraction t hw _ => ?_, intLiteral_refuses h⟩
  obtain ⟨d, r, rfl, hd⟩ := hw.head
  simp [hd] at h

/-- What begins like no literal is left to variables. -/
theorem literal_refuses {c : Char} {r : List Char} (hs : c ≠ '\x27') (hd : c ≠ '\x22')
    (hn : c.isDigit = false) (hw : ∀ w ∈ reserved, ∀ t, ¬ Word w (c :: r) t) :
    Refuses literal (c :: r) := by
  obtain ⟨hfloat, hint⟩ := number_refuses (s := c :: r) (by simpa using hn)
  refine (singleQuoted_refuses (by simpa using hs)).orElse ?_
  refine (doubleQuoted_refuses (by simpa using hd)).orElse ?_
  refine hfloat.orElse (hint.orElse ?_)
  refine (wordLiteral_refuses (hw "true" (by decide)) _).orElse ?_
  exact (wordLiteral_refuses (hw "false" (by decide)) _).orElse
    (wordLiteral_refuses (hw "null" (by decide)) _)

theorem isNameStart_ne {c d : Char} (hc : isNameStart c = true) (hd : isNameStart d = false) :
    c ≠ d := by
  rintro rfl
  simp [hc] at hd

theorem isDigit_of_isNameStart {c : Char} (h : isNameStart c = true) : c.isDigit = false := by
  cases hd : c.isDigit with
  | false => rfl
  | true =>
    delta isNameStart Char.isAlpha Char.isUpper Char.isLower at h
    delta Char.isDigit at hd
    simp only [Bool.or_eq_true, Bool.and_eq_true, decide_eq_true_eq, UInt32.le_iff_toNat_le,
      ge_iff_le] at h hd
    change (((65 ≤ c.toNat ∧ c.toNat ≤ 90) ∨ (97 ≤ c.toNat ∧ c.toNat ≤ 122)) ∨ c = '_') at h
    change 48 ≤ c.toNat ∧ c.toNat ≤ 57 at hd
    rcases h with (h | h) | rfl
    · omega
    · omega
    · exact absurd hd (by decide)

/-- A word in front leaves only the word literals. -/
theorem literal_of_word {c : Char} {r : List Char} (hc : isNameStart c = true) :
    literal (c :: r) = orElse (wordLiteral "true" (.bool true))
      (orElse (wordLiteral "false" (.bool false)) (wordLiteral "null" .null)) (c :: r) := by
  obtain ⟨hfloat, hint⟩ := number_refuses (s := c :: r) (by simpa using isDigit_of_isNameStart hc)
  rw [literal, (singleQuoted_refuses (by simpa using isNameStart_ne hc (by decide))).orElse_eq,
    (doubleQuoted_refuses (by simpa using isNameStart_ne hc (by decide))).orElse_eq,
    hfloat.orElse_eq, hint.orElse_eq]

theorem literal_eq_done {s t : List Char} {v : Value} (h : LiteralText s v t)
    (hf : NoFraction t) : literal s = .done v t := by
  cases h with
  | singleQuoted closed => exact orElse_of_done (singleQuoted_eq_done.mpr ⟨_, closed, rfl, rfl⟩) _
  | doubleQuoted inside =>
    rw [literal, (singleQuoted_refuses (by simp)).orElse_eq]
    exact orElse_of_done (doubleQuoted_eq_done.mpr ⟨_, _, inside, rfl, rfl⟩) _
  | float front behind =>
    obtain ⟨d, r, rfl, hd⟩ := front.head
    rw [literal, (singleQuoted_refuses ?_).orElse_eq, (doubleQuoted_refuses ?_).orElse_eq]
    · exact orElse_of_done (floatLiteral_eq_done.mpr ⟨_, _, _, front, behind, rfl⟩) _
    all_goals rintro ⟨⟩; revert hd; decide
  | int digits range =>
    have hint := intLiteral_eq_done.mpr ⟨_, digits, range, rfl⟩
    have hfloat : Refuses floatLiteral s := by
      refine floatLiteral_refuses fun whole m fraction u hw hm => ?_
      have hrun := (takeWhile1_isDigit_eq_done (s := s)).mpr digits
      rw [takeWhile1_isDigit_eq_done.mpr hw] at hrun
      obtain ⟨-, rfl⟩ : whole = _ ∧ '.' :: m = t := by simpa using hrun
      obtain ⟨d, r, rfl, hd⟩ := hm.head
      simp [hf d r rfl] at hd
    obtain ⟨d, r, rfl, hd⟩ := digits.head
    rw [literal, (singleQuoted_refuses ?_).orElse_eq, (doubleQuoted_refuses ?_).orElse_eq,
      hfloat.orElse_eq]
    · exact orElse_of_done hint _
    all_goals rintro ⟨⟩; revert hd; decide
  | yes word =>
    obtain ⟨c, r, rfl, hc⟩ := word.head (by decide)
    rw [literal_of_word hc]
    exact orElse_of_done (wordLiteral_eq_done.mpr ⟨word, rfl⟩) _
  | no word =>
    obtain ⟨c, r, rfl, hc⟩ := word.head (by decide)
    have hyes : ∀ u, ¬ Word "true" (c :: r) u := fun u hu =>
      absurd (hu.unique word (by decide) (by decide)) (by decide)
    rw [literal_of_word hc, (wordLiteral_refuses hyes _).orElse_eq]
    exact orElse_of_done (wordLiteral_eq_done.mpr ⟨word, rfl⟩) _
  | null word =>
    obtain ⟨c, r, rfl, hc⟩ := word.head (by decide)
    have hyes : ∀ u, ¬ Word "true" (c :: r) u := fun u hu =>
      absurd (hu.unique word (by decide) (by decide)) (by decide)
    have hno : ∀ u, ¬ Word "false" (c :: r) u := fun u hu =>
      absurd (hu.unique word (by decide) (by decide)) (by decide)
    rw [literal_of_word hc, (wordLiteral_refuses hyes _).orElse_eq,
      (wordLiteral_refuses hno _).orElse_eq]
    exact wordLiteral_eq_done.mpr ⟨word, rfl⟩

theorem neverCommits_unaryOp : NeverCommits unaryOp :=
  ((neverCommits_char '!').bind fun _ => neverCommits_succeed _).orElse <|
    ((neverCommits_keyword "not").bind fun _ => neverCommits_succeed _).orElse <|
      (neverCommits_char '-').bind fun _ => neverCommits_succeed _

theorem unaryOp_eq_done {s t : List Char} {op : UnaryOp} :
    unaryOp s = .done op t ↔ Sign s op t := by
  constructor
  · intro h
    simp only [unaryOp, orElse_eq_done, bind_eq_done, char_eq_done, keyword_eq_done, succeed_apply,
      Outcome.done.injEq] at h
    rcases h with ⟨_, _, rfl, rfl, rfl⟩ | ⟨-, ⟨_, _, hw, rfl, rfl⟩ | ⟨-, _, _, rfl, rfl, rfl⟩⟩
    · exact .bang
    · exact .word hw
    · exact .minus
  · have hbang {c : Char} {r : List Char} (hc : c ≠ '!') :
        Refuses (char '!' >>= fun _ => succeed UnaryOp.not : Phrase UnaryOp) (c :: r) :=
      (refuses_char (by simpa using hc)).bind _
    intro h
    cases h with
    | bang =>
      have hbang : (char '!' : Phrase Unit) ('!' :: t) = .done () t := char_eq_done.mpr rfl
      exact orElse_of_done (bind_succeed hbang _) _
    | word hw =>
      obtain ⟨c, r, rfl, hc⟩ := hw.head (by decide)
      rw [unaryOp, (hbang (isNameStart_ne hc (by decide))).orElse_eq]
      have hword : keyword "not" (c :: r) = .done () t := keyword_eq_done.mpr hw
      exact orElse_of_done (bind_succeed hword _) _
    | minus =>
      have hword : Refuses (keyword "not" >>= fun _ => succeed UnaryOp.not : Phrase UnaryOp)
          ('-' :: t) :=
        ((neverCommits_keyword "not").refuses fun _ u hu =>
          not_word_of_head (by decide) (by decide) u (keyword_eq_done.mp hu)).bind _
      rw [unaryOp, (hbang (by decide)).orElse_eq, hword.orElse_eq]
      exact bind_succeed (char_eq_done.mpr rfl : char '-' _ = .done () t) _

theorem neverCommits_symbol (ops : List BinaryOp) : NeverCommits (symbol ops) := by
  induction ops with
  | nil =>
    intro s r e h
    simp [symbol] at h
  | cons op ops ih =>
    exact ((neverCommits_exactly _).bind fun _ => neverCommits_succeed op).orElse ih

theorem mem_of_symbol {ops : List BinaryOp} {op : BinaryOp} {s t : List Char}
    (h : symbol ops s = .done op t) : op ∈ ops ∧ s = op.symbol.toList ++ t := by
  induction ops with
  | nil => simp [symbol] at h
  | cons o ops ih =>
    simp only [symbol, orElse_eq_done, bind_eq_done, exactly_eq_done, succeed_apply,
      Outcome.done.injEq] at h
    rcases h with ⟨_, _, rfl, rfl, rfl⟩ | ⟨-, h⟩
    · exact ⟨by simp, rfl⟩
    · obtain ⟨hmem, hs⟩ := ih h
      exact ⟨by simp [hmem], hs⟩

/-- The symbol in front is read unless that of an earlier operator of the list is there, too. -/
theorem symbol_of_mem {ops : List BinaryOp} {op : BinaryOp} {t : List Char} (mem : op ∈ ops)
    (apart : ∀ o ∈ ops.takeWhile (· != op), ∀ u, op.symbol.toList ++ t ≠ o.symbol.toList ++ u) :
    symbol ops (op.symbol.toList ++ t) = .done op t := by
  induction ops with
  | nil => simp at mem
  | cons o ops ih =>
    by_cases ho : o = op
    · subst ho
      exact orElse_of_done (bind_succeed (exactly_eq_done.mpr rfl : exactly _ _ = .done () t) _) _
    · have htake : (o :: ops).takeWhile (· != op) = o :: ops.takeWhile (· != op) := by simp [ho]
      rw [htake] at apart
      have hrefuse : Refuses (exactly o.symbol >>= fun _ => succeed o : Phrase BinaryOp)
          (op.symbol.toList ++ t) :=
        ((neverCommits_exactly _).refuses fun _ u hu =>
          apart o (by simp) u (exactly_eq_done.mp hu)).bind _
      have hmem : op ∈ ops := by
        rcases List.mem_cons.mp mem with h | h
        · exact absurd h.symm ho
        · exact h
      rw [symbol, hrefuse.orElse_eq]
      exact ih hmem fun o' ho' => apart o' (by simp [ho'])

theorem symbol_of_level {l : Level} {op : BinaryOp} (mem : op ∈ l.symbols) (t : List Char) :
    symbol l.symbols (op.symbol.toList ++ t) = .done op t := by
  refine symbol_of_mem mem ?_
  cases l <;> simp only [Level.symbols, List.mem_cons, List.not_mem_nil, or_false] at mem
  all_goals rcases mem with rfl | rfl | rfl <;> simp [Level.symbols, BinaryOp.symbol]

/-- An equality sign behind a comparison would belong to it. -/
theorem symbol_of_comparison {op : BinaryOp} (mem : op ∈ comparisons) {t : List Char}
    (h : t.head? ≠ some '=') : symbol comparisons (op.symbol.toList ++ t) = .done op t := by
  have hne : ∀ u, t ≠ '=' :: u := fun u hu => h (by simp [hu])
  refine symbol_of_mem mem ?_
  simp only [comparisons, List.mem_cons, List.not_mem_nil, or_false] at mem
  rcases mem with rfl | rfl | rfl | rfl <;> simp [comparisons, BinaryOp.symbol, hne]

theorem neverCommits_andOp : NeverCommits andOp :=
  (neverCommits_keyword _).orElse (neverCommits_exactly _)

theorem neverCommits_orOp : NeverCommits orOp :=
  (neverCommits_keyword _).orElse (neverCommits_exactly _)

theorem joins_of_symbol {l : Level} {op : BinaryOp} {s t : List Char}
    (h : symbol l.symbols s = .done op t) : Joins l s (.binary op) t := by
  obtain ⟨mem, rfl⟩ := mem_of_symbol h
  exact .symbol mem

theorem joins_of_andOp {s t : List Char} {u : Unit} (h : andOp s = .done u t) :
    Joins .conjunction s .and t := by
  simp only [andOp, orElse_eq_done, keyword_eq_done, exactly_eq_done] at h
  rcases h with hw | ⟨-, rfl⟩
  · exact .and hw
  · exact .ampersands

theorem joins_of_orOp {s t : List Char} {u : Unit} (h : orOp s = .done u t) :
    Joins .disjunction s .or t := by
  simp only [orOp, orElse_eq_done, keyword_eq_done, exactly_eq_done] at h
  rcases h with hw | ⟨-, rfl⟩
  · exact .or hw
  · exact .bars

theorem andOp_of_joins {s t : List Char} {join : Expr → Expr → Expr}
    (h : Joins .conjunction s join t) : andOp s = .done () t ∧ join = .and := by
  cases h with
  | and word => exact ⟨orElse_of_done (keyword_eq_done.mpr word) _, rfl⟩
  | ampersands =>
    have hword : Refuses (keyword "and") ('&' :: '&' :: t) :=
      (neverCommits_keyword _).refuses fun _ u hu =>
        not_word_of_head (by decide) (by decide) u (keyword_eq_done.mp hu)
    exact ⟨(hword.orElse_eq _).trans (exactly_eq_done.mpr rfl), rfl⟩
  | symbol mem => simp [Level.symbols] at mem

theorem orOp_of_joins {s t : List Char} {join : Expr → Expr → Expr}
    (h : Joins .disjunction s join t) : orOp s = .done () t ∧ join = .or := by
  cases h with
  | or word => exact ⟨orElse_of_done (keyword_eq_done.mpr word) _, rfl⟩
  | bars =>
    have hword : Refuses (keyword "or") ('|' :: '|' :: t) :=
      (neverCommits_keyword _).refuses fun _ u hu =>
        not_word_of_head (by decide) (by decide) u (keyword_eq_done.mp hu)
    exact ⟨(hword.orElse_eq _).trans (exactly_eq_done.mpr rfl), rfl⟩
  | symbol mem => simp [Level.symbols] at mem

/-- The operators of the other levels that chain are symbols. -/
theorem symbol_of_joins {l : Level} {s t : List Char} {join : Expr → Expr → Expr}
    (h : Joins l s join t) (hand : l ≠ .conjunction) (hor : l ≠ .disjunction) :
    ∃ op ∈ l.symbols, symbol l.symbols s = .done op t ∧ join = .binary op := by
  cases h with
  | or | bars => exact absurd rfl hor
  | and | ampersands => exact absurd rfl hand
  | symbol mem => exact ⟨_, mem, symbol_of_level mem t, rfl⟩

end Rulebook.Condition.Grammar
