import Rulebook.Proofs.Grammar.Tokens

/-!
# Phrases of looser levels, in longer and in shorter texts

A phrase is a phrase of every looser level, too, and blanks may be put in front of it. Text put
behind a phrase leaves the phrase as it is, unless it could go on with the last word or quoted
text. A character that belongs to neither separates what stands before it. Text behind a phrase
may always be taken away.
-/
namespace Rulebook.Condition.Grammar
open Text Text.Parser

theorem Derives.loosen {l l' : Level} {s t : List Char} {e : Expr} (h : Derives l' s e t)
    (hl : l.rank ≤ l'.rank) : Derives l s e t := by
  induction hn : l'.rank - l.rank generalizing l with
  | zero =>
    obtain rfl : l = l' := Level.rank_injective (by omega)
    exact h
  | succ n ih =>
    obtain ⟨k, below⟩ := Level.exists_tighter (show l.rank < l'.rank by omega)
    have hk := Level.rank_of_tighter below
    exact .tighter below (ih (by omega) (by omega))

theorem Blanks.trans {s t u : List Char} (h : Blanks s t) (h' : Blanks t u) : Blanks s u := by
  obtain ⟨bs, hbs, rfl⟩ := h
  obtain ⟨cs, hcs, rfl⟩ := h'
  refine ⟨bs ++ cs, fun c hc => ?_, by simp⟩
  rcases List.mem_append.mp hc with hc | hc
  · exact hbs c hc
  · exact hcs c hc

/-- Blanks in front belong to the first word of a phrase. -/
theorem Derives.behind {s' s : List Char} (gap : Blanks s' s) {l : Level} {t : List Char}
    {e : Expr} : Derives l s e t → Derives l s' e t
  | .tighter below h => .tighter below (h.behind gap)
  | .choice condition mark first colon second =>
    .choice (condition.behind gap) mark first colon second
  | .joined below first gap' op second tree => .joined below (first.behind gap) gap' op second tree
  | .comparison first mem gap' second => .comparison (first.behind gap) mem gap' second
  | .signed gap' sign operand => .signed (gap.trans gap') sign operand
  | .field target point name => .field (target.behind gap) point name
  | .call target point name opening arguments closing =>
    .call (target.behind gap) point name opening arguments closing
  | .index target opening position closing => .index (target.behind gap) opening position closing
  | .enclosed opening inside closing => .enclosed (gap.trans opening) inside closing
  | .list opening items closing => .list (gap.trans opening) items closing
  | .literal gap' text => .literal (gap.trans gap') text
  | .marked mark name => .marked (gap.trans mark) name
  | .bare gap' name free => .bare (gap.trans gap') name free

theorem Items.behind {s' s t : List Char} {e : Expr} {es : List Expr} (gap : Blanks s' s)
    (h : Items s (e :: es) t) : Items s' (e :: es) t := by
  cases h with
  | last item => exact .last (item.behind gap)
  | more item comma others => exact .more (item.behind gap) comma others

/-- The text goes on neither with a name or a number nor with a single-quoted text. -/
structure Separates (x : List Char) : Prop where
  name : EndsBefore isNameChar x
  quote : x.head? ≠ some '\x27'

theorem separates_cons {c : Char} {x : List Char} (h : (isNameChar c || c == '\x27') = false) :
    Separates (c :: x) := by
  simp only [Bool.or_eq_false_iff, beq_eq_false_iff_ne] at h
  exact ⟨by simpa using h.1, by simpa using h.2⟩

theorem separates_nil : Separates [] := ⟨by simp, by simp⟩

theorem endsBefore_append {p : Char → Bool} {s x : List Char} (hs : EndsBefore p s)
    (hx : EndsBefore p x) : EndsBefore p (s ++ x) := by
  cases s with
  | nil => exact hx
  | cons c s => exact hs

section Append

variable {x : List Char} (hx : Separates x)
include hx

theorem Separates.digit : EndsBefore Char.isDigit x := by
  intro c hc
  have hname := hx.name c hc
  cases hd : c.isDigit with
  | false => rfl
  | true => simp [isNameChar, Char.isAlphanum, hd] at hname

theorem Name.append {s t : List Char} {n : String} (h : Name s n t) : Name (s ++ x) n (t ++ x) := by
  obtain ⟨hn, rfl, hstop⟩ := h
  exact ⟨hn, by simp, endsBefore_append hstop hx.name⟩

theorem Word.append {w : String} {s t : List Char} (h : Word w s t) : Word w (s ++ x) (t ++ x) := by
  obtain ⟨rfl, hstop⟩ := h
  exact ⟨by simp, endsBefore_append hstop hx.name⟩

theorem DigitRun.append {s ds t : List Char} (h : DigitRun s ds t) :
    DigitRun (s ++ x) ds (t ++ x) := by
  obtain ⟨hne, rfl, hds, hstop⟩ := h
  exact ⟨hne, by simp, hds, endsBefore_append hstop hx.digit⟩

theorem LiteralText.append {s t : List Char} {v : Value} (h : LiteralText s v t) :
    LiteralText (s ++ x) v (t ++ x) := by
  cases h with
  | @singleQuoted cs _ closed =>
    have hclosed : (t ++ x).head? ≠ some '\x27' := by
      cases t with
      | nil => exact hx.quote
      | cons c t => exact closed
    have text : LiteralText ('\x27' :: (doubled cs ++ '\x27' :: (t ++ x))) _ (t ++ x) :=
      .singleQuoted hclosed
    simpa using text
  | doubleQuoted inside => simpa using LiteralText.doubleQuoted (t := t ++ x) inside
  | float front behind => exact .float (front.append hx) (behind.append hx)
  | int digits range => exact .int (digits.append hx) range
  | yes word => exact .yes (word.append hx)
  | no word => exact .no (word.append hx)
  | null word => exact .null (word.append hx)

theorem Sign.append {s t : List Char} {op : UnaryOp} (h : Sign s op t) :
    Sign (s ++ x) op (t ++ x) := by
  cases h with
  | bang => exact .bang
  | word word => exact .word (word.append hx)
  | minus => exact .minus

theorem Joins.append {l : Level} {s t : List Char} {join : Expr → Expr → Expr}
    (h : Joins l s join t) : Joins l (s ++ x) join (t ++ x) := by
  cases h with
  | or word => exact .or (word.append hx)
  | bars => exact .bars
  | and word => exact .and (word.append hx)
  | ampersands => exact .ampersands
  | symbol mem =>
    rw [List.append_assoc]
    exact .symbol mem

end Append

mutual

/-- A phrase stays a phrase if separated text is put behind it. -/
theorem Derives.append {x : List Char} (hx : Separates x) {l : Level} {s t : List Char}
    {e : Expr} :
    Derives l s e t → Derives l (s ++ x) e (t ++ x)
  | .tighter below h => .tighter below (h.append hx)
  | .choice condition mark first colon second =>
    .choice (condition.append hx) (mark.append x) (first.append hx) (colon.append x)
      (second.append hx)
  | .joined below first gap op second tree =>
    .joined below (first.append hx) (gap.append x) (op.append hx) (second.append hx) tree
  | .comparison first mem gap second =>
    .comparison (first.append hx) mem (by simpa using gap.append x) (second.append hx)
  | .signed gap sign operand => .signed (gap.append x) (sign.append hx) (operand.append hx)
  | .field target point name => .field (target.append hx) (point.append x) (name.append hx)
  | .call target point name opening arguments closing =>
    .call (target.append hx) (point.append x) (name.append hx) (opening.append x)
      (arguments.append hx) (closing.append x)
  | .index target opening position closing =>
    .index (target.append hx) (opening.append x) (position.append hx) (closing.append x)
  | .enclosed opening inside closing =>
    .enclosed (opening.append x) (inside.append hx) (closing.append x)
  | .list opening items closing => .list (opening.append x) (items.append hx) (closing.append x)
  | .literal gap text => .literal (gap.append x) (text.append hx)
  | .marked mark name => .marked (mark.append x) (name.append hx)
  | .bare gap name free => .bare (gap.append x) (name.append hx) free

theorem Items.append {x : List Char} (hx : Separates x) {s t : List Char} {es : List Expr} :
    Items s es t → Items (s ++ x) es (t ++ x)
  | .none => .none
  | .last item => .last (item.append hx)
  | .more item comma others => .more (item.append hx) (comma.append x) (others.append hx)

end

/-- A condition between parentheses is a primary, whatever follows. -/
theorem derives_parenthesized {source : String} {e : Expr} (h : Describes source e)
    {s t : List Char} (opening : Blanks s ('(' :: (source.toList ++ ')' :: t))) :
    Derives .primary s e t := by
  obtain ⟨m, inside, gap⟩ := h
  have hx : Separates (')' :: t) := separates_cons rfl
  exact .enclosed opening (inside.append hx) (gap.append (')' :: t))

theorem endsBefore_detach {p : Char → Bool} {t x : List Char} (h : EndsBefore p (t ++ x)) :
    EndsBefore p t := by
  cases t with
  | nil => simp
  | cons c t => exact h

section Detach

variable {s u t x : List Char}

theorem Blanks.detach (h : Blanks s u) (hu : u = t ++ x) : ∃ s', s = s' ++ x ∧ Blanks s' t := by
  obtain ⟨bs, hbs, rfl⟩ := h
  exact ⟨bs ++ t, by simp [hu], bs, hbs, rfl⟩

/-- The character that ends the blanks stays with what is kept. -/
theorem Blanks.detach_cons {c : Char} (h : Blanks s (c :: u)) (hu : u = t ++ x) :
    ∃ s', s = s' ++ x ∧ Blanks s' (c :: t) :=
  h.detach (congrArg (List.cons c) hu)

theorem Name.detach {n : String} (h : Name s n u) (hu : u = t ++ x) :
    ∃ s', s = s' ++ x ∧ Name s' n t := by
  subst hu
  obtain ⟨hn, rfl, hstop⟩ := h
  exact ⟨n.toList ++ t, by simp, hn, rfl, endsBefore_detach hstop⟩

theorem Word.detach {w : String} (h : Word w s u) (hu : u = t ++ x) :
    ∃ s', s = s' ++ x ∧ Word w s' t := by
  subst hu
  obtain ⟨rfl, hstop⟩ := h
  exact ⟨w.toList ++ t, by simp, rfl, endsBefore_detach hstop⟩

theorem DigitRun.detach {ds : List Char} (h : DigitRun s ds u) (hu : u = t ++ x) :
    ∃ s', s = s' ++ x ∧ DigitRun s' ds t := by
  subst hu
  obtain ⟨hne, rfl, hds, hstop⟩ := h
  exact ⟨ds ++ t, by simp, hne, rfl, hds, endsBefore_detach hstop⟩

theorem LiteralText.detach {v : Value} (h : LiteralText s v u) (hu : u = t ++ x) :
    ∃ s', s = s' ++ x ∧ LiteralText s' v t := by
  subst hu
  cases h with
  | @singleQuoted cs _ closed =>
    refine ⟨'\x27' :: (doubled cs ++ '\x27' :: t), by simp, .singleQuoted ?_⟩
    cases t with
    | nil => simp
    | cons c t => exact closed
  | @doubleQuoted body _ _ inside =>
    exact ⟨'\x22' :: (body ++ '\x22' :: t), by simp, .doubleQuoted inside⟩
  | float front behind =>
    obtain ⟨m, rfl, behind'⟩ := behind.detach rfl
    obtain ⟨s', hs, front'⟩ := front.detach (t := '.' :: m) rfl
    exact ⟨s', hs, .float front' behind'⟩
  | int digits range =>
    obtain ⟨s', hs, digits'⟩ := digits.detach rfl
    exact ⟨s', hs, .int digits' range⟩
  | yes word =>
    obtain ⟨s', hs, word'⟩ := word.detach rfl
    exact ⟨s', hs, .yes word'⟩
  | no word =>
    obtain ⟨s', hs, word'⟩ := word.detach rfl
    exact ⟨s', hs, .no word'⟩
  | null word =>
    obtain ⟨s', hs, word'⟩ := word.detach rfl
    exact ⟨s', hs, .null word'⟩

theorem Sign.detach {op : UnaryOp} (h : Sign s op u) (hu : u = t ++ x) :
    ∃ s', s = s' ++ x ∧ Sign s' op t := by
  subst hu
  cases h with
  | bang => exact ⟨'!' :: t, rfl, .bang⟩
  | word word =>
    obtain ⟨s', hs, word'⟩ := word.detach rfl
    exact ⟨s', hs, .word word'⟩
  | minus => exact ⟨'-' :: t, rfl, .minus⟩

theorem Joins.detach {l : Level} {join : Expr → Expr → Expr} (h : Joins l s join u)
    (hu : u = t ++ x) : ∃ s', s = s' ++ x ∧ Joins l s' join t := by
  subst hu
  cases h with
  | or word =>
    obtain ⟨s', hs, word'⟩ := word.detach rfl
    exact ⟨s', hs, .or word'⟩
  | bars => exact ⟨'|' :: '|' :: t, rfl, .bars⟩
  | and word =>
    obtain ⟨s', hs, word'⟩ := word.detach rfl
    exact ⟨s', hs, .and word'⟩
  | ampersands => exact ⟨'&' :: '&' :: t, rfl, .ampersands⟩
  | @symbol _ op _ mem => exact ⟨op.symbol.toList ++ t, by simp, .symbol mem⟩

end Detach

mutual

/-- A phrase does not need what stands behind it. The text is taken away from the last part of the
phrase, and so from each part before. -/
theorem Derives.detach {x : List Char} {l : Level} {s u : List Char} {e : Expr} :
    Derives l s e u → ∀ {t}, u = t ++ x → ∃ s', s = s' ++ x ∧ Derives l s' e t
  | .tighter below h, t, hu => by
    obtain ⟨s', hs, h'⟩ := h.detach hu
    exact ⟨s', hs, .tighter below h'⟩
  | .choice condition mark first colon second, t, hu => by
    obtain ⟨m₃, hm₃, second'⟩ := second.detach hu
    obtain ⟨m₂, hm₂, colon'⟩ := colon.detach_cons hm₃
    obtain ⟨m₁, hm₁, first'⟩ := first.detach hm₂
    obtain ⟨m, hm, mark'⟩ := mark.detach_cons hm₁
    obtain ⟨s', hs, condition'⟩ := condition.detach hm
    exact ⟨s', hs, .choice condition' mark' first' colon' second'⟩
  | .joined below first gap op second tree, t, hu => by
    obtain ⟨m₂, hm₂, second'⟩ := second.detach hu
    obtain ⟨m₁, hm₁, op'⟩ := op.detach hm₂
    obtain ⟨m, hm, gap'⟩ := gap.detach hm₁
    obtain ⟨s', hs, first'⟩ := first.detach hm
    exact ⟨s', hs, .joined below first' gap' op' second' tree⟩
  | @Derives.comparison _ _ _ _ _ _ op first mem gap second, t, hu => by
    obtain ⟨m₁, hm₁, second'⟩ := second.detach hu
    obtain ⟨m, hm, gap'⟩ := gap.detach (t := op.symbol.toList ++ m₁) (x := x) (by simp [hm₁])
    obtain ⟨s', hs, first'⟩ := first.detach hm
    exact ⟨s', hs, .comparison first' mem gap' second'⟩
  | .signed gap sign operand, t, hu => by
    obtain ⟨m₁, hm₁, operand'⟩ := operand.detach hu
    obtain ⟨m, hm, sign'⟩ := sign.detach hm₁
    obtain ⟨s', hs, gap'⟩ := gap.detach hm
    exact ⟨s', hs, .signed gap' sign' operand'⟩
  | .field target point name, t, hu => by
    obtain ⟨m₁, hm₁, name'⟩ := name.detach hu
    obtain ⟨m, hm, point'⟩ := point.detach_cons hm₁
    obtain ⟨s', hs, target'⟩ := target.detach hm
    exact ⟨s', hs, .field target' point' name'⟩
  | .call target point name opening arguments closing, t, hu => by
    obtain ⟨m₄, hm₄, closing'⟩ := closing.detach_cons hu
    obtain ⟨m₃, hm₃, arguments'⟩ := arguments.detach hm₄
    obtain ⟨m₂, hm₂, opening'⟩ := opening.detach_cons hm₃
    obtain ⟨m₁, hm₁, name'⟩ := name.detach hm₂
    obtain ⟨m, hm, point'⟩ := point.detach_cons hm₁
    obtain ⟨s', hs, target'⟩ := target.detach hm
    exact ⟨s', hs, .call target' point' name' opening' arguments' closing'⟩
  | .index target opening position closing, t, hu => by
    obtain ⟨m₂, hm₂, closing'⟩ := closing.detach_cons hu
    obtain ⟨m₁, hm₁, position'⟩ := position.detach hm₂
    obtain ⟨m, hm, opening'⟩ := opening.detach_cons hm₁
    obtain ⟨s', hs, target'⟩ := target.detach hm
    exact ⟨s', hs, .index target' opening' position' closing'⟩
  | .enclosed opening inside closing, t, hu => by
    obtain ⟨m₁, hm₁, closing'⟩ := closing.detach_cons hu
    obtain ⟨m, hm, inside'⟩ := inside.detach hm₁
    obtain ⟨s', hs, opening'⟩ := opening.detach_cons hm
    exact ⟨s', hs, .enclosed opening' inside' closing'⟩
  | .list opening items closing, t, hu => by
    obtain ⟨m₁, hm₁, closing'⟩ := closing.detach_cons hu
    obtain ⟨m, hm, items'⟩ := items.detach hm₁
    obtain ⟨s', hs, opening'⟩ := opening.detach_cons hm
    exact ⟨s', hs, .list opening' items' closing'⟩
  | .literal gap text, t, hu => by
    obtain ⟨m, hm, text'⟩ := text.detach hu
    obtain ⟨s', hs, gap'⟩ := gap.detach hm
    exact ⟨s', hs, .literal gap' text'⟩
  | .marked mark name, t, hu => by
    obtain ⟨m, hm, name'⟩ := name.detach hu
    obtain ⟨s', hs, mark'⟩ := mark.detach_cons hm
    exact ⟨s', hs, .marked mark' name'⟩
  | .bare gap name free, t, hu => by
    obtain ⟨m, hm, name'⟩ := name.detach hu
    obtain ⟨s', hs, gap'⟩ := gap.detach hm
    exact ⟨s', hs, .bare gap' name' free⟩

theorem Items.detach {x : List Char} {s u : List Char} {es : List Expr} :
    Items s es u → ∀ {t}, u = t ++ x → ∃ s', s = s' ++ x ∧ Items s' es t
  | .none, t, hu => ⟨t, hu, .none⟩
  | .last item, t, hu => by
    obtain ⟨s', hs, item'⟩ := item.detach hu
    exact ⟨s', hs, .last item'⟩
  | .more item comma others, t, hu => by
    obtain ⟨m₁, hm₁, others'⟩ := others.detach hu
    obtain ⟨m, hm, comma'⟩ := comma.detach_cons hm₁
    obtain ⟨s', hs, item'⟩ := item.detach hm
    exact ⟨s', hs, .more item' comma' others'⟩

end

end Rulebook.Condition.Grammar
