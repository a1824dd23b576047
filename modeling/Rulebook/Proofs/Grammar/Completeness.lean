import Mathlib.Data.List.Basic
import Rulebook.Proofs.Grammar.Follow
import Rulebook.Proofs.Grammar.Soundness

/-!
# Every phrase is read

A phrase is read whole if the text behind it stops its level. The statement that carries the
induction is about unfinished levels: after a phrase whose last operand is complete, the parser of
the level is where it would be had it read the whole phrase as its first operand. Chains of
operators and of accesses, which the grammar builds from the left, are then read step by step.
-/
namespace Rulebook.Condition.Grammar
open Text Text.Parser

/-- A repetition whose first item is read goes on behind it. -/
theorem many_bind_step {α β : Type} {p : Phrase α} {f g : List α → Phrase β} {s t : List Char}
    {a : α} (h : p s = .done a t) (shorter : t.length < s.length) (hfg : ∀ as, f (a :: as) = g as) :
    (many p >>= f) s = (many p >>= g) t := by
  have hmany : many p s = (many p >>= fun as => succeed (a :: as)) t := many_of_done h shorter
  cases ht : many p t with
  | done as u =>
    have hs : many p s = .done (a :: as) u := by rw [hmany, bind_of_done ht, succeed_apply]
    rw [bind_of_done hs, bind_of_done ht, hfg]
  | failed committed u e =>
    have hs : many p s = .failed committed u e := by rw [hmany, bind_of_failed ht]
    rw [bind_of_failed hs, bind_of_failed ht]

theorem operandStep_eq_done {ω : Type} {op : Phrase ω} {operand : Phrase Expr} {s m t : List Char}
    {o : ω} {right : Expr} (hop : op (dropBlanks s) = .done o m)
    (hright : operand m = .done right t) : operandStep op operand s = .done (o, right) t := by
  rw [operandStep, blanks_bind, bind_of_done hop, bind_of_done (commit_eq_done.mpr hright),
    succeed_apply]

theorem resumeGrouped_step {ω : Type} {op : Phrase ω} {operand : Phrase Expr}
    (join : ω → Expr → Expr → Expr) {s m t : List Char} {o : ω} {left right : Expr}
    (hop : op (dropBlanks s) = .done o m) (hright : operand m = .done right t)
    (shorter : t.length < s.length) :
    resumeGrouped op operand join left s = resumeGrouped op operand join (join o left right) t :=
  many_bind_step (operandStep_eq_done hop hright) shorter fun _ => rfl

section Steps

variable {nested : Phrase Expr}

/-- An operator with its operand is joined to what was read before. -/
theorem resume_joined {l l' : Level} {s m t : List Char} {left right : Expr}
    {join : Expr → Expr → Expr} (below : l.tighter = some l') (op : Joins l (dropBlanks s) join m)
    (hright : phrase nested l' m = .done right t) (shorter : t.length < s.length) :
    resume nested l left s = resume nested l (join left right) t := by
  cases l with
  | disjunction =>
    obtain rfl : l' = .conjunction := by simpa [Level.tighter] using below.symm
    obtain ⟨hop, rfl⟩ := orOp_of_joins op
    exact resumeGrouped_step (fun _ => .or) hop hright shorter
  | conjunction =>
    obtain rfl : l' = .equality := by simpa [Level.tighter] using below.symm
    obtain ⟨hop, rfl⟩ := andOp_of_joins op
    exact resumeGrouped_step (fun _ => .and) hop hright shorter
  | equality | sum | product =>
    obtain ⟨o, -, hop, rfl⟩ := symbol_of_joins op (by decide) (by decide)
    simp only [Level.tighter, Option.some.injEq] at below
    subst below
    exact resumeGrouped_step .binary hop hright shorter
  | choice | comparison | signed | accessed | primary =>
    obtain ⟨o, mem, -⟩ := symbol_of_joins op (by decide) (by decide)
    simp [Level.symbols] at mem

theorem choiceStep_eq_done {s m m₁ m₂ t : List Char} {a b : Expr} (mark : dropBlanks s = '?' :: m)
    (first : nested m = .done a m₁) (colon : dropBlanks m₁ = ':' :: m₂)
    (second : nested m₂ = .done b t) : choiceStep nested s = .done (a, b) t := by
  rw [choiceStep, blanks_bind, mark, char_bind]
  refine commit_eq_done.mpr ?_
  rw [branches, bind_of_done first, blanks_bind, colon, char_bind, bind_of_done second,
    succeed_apply]

theorem access_field {s m t : List Char} {n : String} (point : dropBlanks s = '.' :: m)
    (name : Name m n t) (behind : (dropBlanks t).head? ≠ some '(') :
    access nested s = .done (.field n) t := by
  have hargs : Refuses (arguments nested) t := blanks_bind_refuses ((refuses_char behind).bind _)
  rw [access, blanks_bind, point]
  refine orElse_of_done ?_ _
  rw [member, char_bind,
    bind_of_done (expecting_eq_done.mpr (commit_eq_done.mpr (name_eq_done.mpr name)))]
  exact bind_of_done hargs.optional_eq _

theorem access_call {s m m₁ m₂ m₃ t : List Char} {n : String} {args : List Expr}
    (point : dropBlanks s = '.' :: m) (name : Name m n m₁) (opening : dropBlanks m₁ = '(' :: m₂)
    (items : sepBy nested comma m₂ = .done args m₃) (close : dropBlanks m₃ = ')' :: t) :
    access nested s = .done (.call n args) t := by
  have hargs : arguments nested m₁ = .done args t := by
    rw [arguments, blanks_bind, opening, char_bind, bind_of_done items, closing_bind close,
      succeed_apply]
  rw [access, blanks_bind, point]
  refine orElse_of_done ?_ _
  rw [member, char_bind,
    bind_of_done (expecting_eq_done.mpr (commit_eq_done.mpr (name_eq_done.mpr name)))]
  exact bind_of_done (optional_eq_done_some.mpr hargs) _

theorem access_index {s m m₁ t : List Char} {i : Expr} (opening : dropBlanks s = '[' :: m)
    (position : nested m = .done i m₁) (close : dropBlanks m₁ = ']' :: t) :
    access nested s = .done (.index i) t := by
  have hpoint : Refuses (member nested) ('[' :: m) := (refuses_char (by simp)).bind _
  rw [access, blanks_bind, opening, hpoint.orElse_eq, index, char_bind,
    bind_of_done (commit_eq_done.mpr position), closing_bind close, succeed_apply]

theorem resume_access {s t : List Char} {e : Expr} {a : Access} (h : access nested s = .done a t)
    (shorter : t.length < s.length) :
    resume nested .accessed e s = resume nested .accessed (a.apply e) t :=
  many_bind_step h shorter fun _ => rfl

theorem signed_of_sign {s m t : List Char} {op : UnaryOp} {e : Expr}
    (sign : Sign (dropBlanks s) op m) (h : signed nested m = .done e t) :
    signed nested s = .done (.unary op e) t := by
  have hstep := signStep_eq_done.mpr sign
  have shorter := Nat.lt_of_lt_of_le sign.length_lt (dropBlanks_length_le s)
  rw [signed_eq_bind, bind_eq_done] at h
  obtain ⟨ops, r, hops, htail⟩ := h
  obtain ⟨operand, hoperand, rfl⟩ := accessed_of_signedTail nested htail
  have hmany : many signStep s = .done (op :: ops) r := by
    rw [many_of_done hstep shorter, bind_of_done hops, succeed_apply]
  rw [signed_eq_bind, bind_of_done hmany]
  exact bind_of_done (commit_eq_done.mpr hoperand) _

theorem primary_of_dropBlanks {s m t : List Char} {e : Expr} (hs : dropBlanks s = m)
    (h : orElse (parenthesized nested) (orElse (listLiteral nested) (orElse (do
      let v ← literal
      succeed (.literal v)) var)) m = .done e t) : primary nested s = .done e t := by
  rw [primary, blanks_bind, hs]
  exact expecting_eq_done.mpr h

theorem primary_enclosed {s m m₁ t : List Char} {e : Expr} (opening : dropBlanks s = '(' :: m)
    (inside : nested m = .done e m₁) (close : dropBlanks m₁ = ')' :: t) :
    primary nested s = .done e t := by
  refine primary_of_dropBlanks opening (orElse_of_done ?_ _)
  rw [parenthesized, char_bind, bind_of_done inside, closing_bind close, succeed_apply]

theorem primary_list {s m m₁ t : List Char} {es : List Expr} (opening : dropBlanks s = '\x7b' :: m)
    (items : sepBy nested comma m = .done es m₁) (close : dropBlanks m₁ = '\x7d' :: t) :
    primary nested s = .done (.list es) t := by
  have hparen : Refuses (parenthesized nested) ('\x7b' :: m) := (refuses_char (by simp)).bind _
  refine primary_of_dropBlanks opening ?_
  rw [hparen.orElse_eq]
  refine orElse_of_done ?_ _
  rw [listLiteral, char_bind, bind_of_done items, closing_bind close, succeed_apply]

/-- What opens no bracket is a literal or a variable. -/
theorem primary_of_atom {s m t : List Char} {c : Char} {e : Expr} (hs : dropBlanks s = c :: m)
    (hc : c ≠ '(' ∧ c ≠ '\x7b')
    (h : orElse (do
      let v ← literal
      succeed (.literal v)) var (c :: m) = .done e t) : primary nested s = .done e t := by
  have hparen : Refuses (parenthesized nested) (c :: m) :=
    (refuses_char (by simpa using hc.1)).bind _
  have hbrace : Refuses (listLiteral nested) (c :: m) :=
    (refuses_char (by simpa using hc.2)).bind _
  refine primary_of_dropBlanks hs ?_
  rwa [hparen.orElse_eq, hbrace.orElse_eq]

theorem primary_literal {s t : List Char} {v : Value} (text : LiteralText (dropBlanks s) v t)
    (hf : NoFraction t) : primary nested s = .done (.literal v) t := by
  obtain ⟨c, r, hs, -⟩ := text.head
  rw [hs] at text
  refine primary_of_atom hs ⟨text.head_ne (by decide) (by decide) (by decide),
    text.head_ne (by decide) (by decide) (by decide)⟩ (orElse_of_done ?_ _)
  rw [bind_of_done (literal_eq_done text hf), succeed_apply]

theorem primary_marked {s m t : List Char} {n : String} (mark : dropBlanks s = '#' :: m)
    (name : Name m n t) : primary nested s = .done (.var n) t := by
  have hliteral : Refuses literal ('#' :: m) :=
    literal_refuses (by decide) (by decide) (by decide) fun w hw u =>
      not_word_of_head (by decide) hw u
  refine primary_of_atom mark (by decide) ?_
  rw [(hliteral.bind _).orElse_eq]
  exact var_eq_done.mpr (.inl ⟨m, n, rfl, name, rfl⟩)

theorem primary_bare {s t : List Char} {n : String} (name : Name (dropBlanks s) n t)
    (free : n ∉ reserved) : primary nested s = .done (.var n) t := by
  obtain ⟨c, r, hs, hc⟩ := name.head
  rw [hs] at name
  have hliteral : Refuses literal (c :: r) :=
    literal_refuses (isNameStart_ne hc (by decide)) (isNameStart_ne hc (by decide))
      (isDigit_of_isNameStart hc) fun w hw u => name.not_word free hw u
  refine primary_of_atom hs ⟨isNameStart_ne hc (by decide), isNameStart_ne hc (by decide)⟩ ?_
  rw [(hliteral.bind _).orElse_eq]
  exact var_eq_done.mpr (.inr ⟨by simpa using isNameStart_ne hc (by decide), n, name, free, rfl⟩)

theorem comma_refuses {s : List Char} (h : (dropBlanks s).head? ≠ some ',') :
    Refuses (comma >>= fun _ => nested) s :=
  Refuses.bind (blanks_bind_refuses (refuses_char h)) _

theorem sepBy_none {s : List Char} (h : Refuses nested s) : sepBy nested comma s = .done [] s :=
  bind_of_done h.optional_eq _

theorem sepBy_last {s t : List Char} {e : Expr} (item : nested s = .done e t)
    (behind : (dropBlanks t).head? ≠ some ',') : sepBy nested comma s = .done [e] t := by
  rw [sepBy, bind_of_done (optional_eq_done_some.mpr item)]
  exact bind_of_done (comma_refuses behind).many_eq _

theorem sepBy_more (progress : ∀ s e t, nested s = .done e t → t.length < s.length)
    {s m m₁ t : List Char} {e e' : Expr} {es : List Expr}
    (item : nested s = .done e m) (gap : dropBlanks m = ',' :: m₁)
    (others : sepBy nested comma m₁ = .done (e' :: es) t) :
    sepBy nested comma s = .done (e :: e' :: es) t := by
  rw [sepBy, bind_eq_done] at others
  obtain ⟨o, r, ho, others⟩ := others
  cases o with
  | none => simp at others
  | some first =>
    simp only [bind_eq_done, succeed_apply, Outcome.done.injEq, List.cons.injEq] at others
    obtain ⟨es', u, hmany, ⟨rfl, rfl⟩, rfl⟩ := others
    have hnested := optional_eq_done_some.mp ho
    have hstep : (comma >>= fun _ => nested) m = .done first r := by
      rw [bind_of_done (comma_eq_done.mpr gap : comma m = .done () m₁), hnested]
    have shorter : r.length < m.length := by
      have h₁ := progress _ _ _ hnested
      have h₂ := dropBlanks_length_le m
      rw [gap, List.length_cons] at h₂
      omega
    have hothers : many (comma >>= fun _ => nested) m = .done (first :: es') u := by
      rw [many_of_done hstep shorter, bind_of_done hmany, succeed_apply]
    rw [sepBy, bind_of_done (optional_eq_done_some.mpr item)]
    exact bind_of_done hothers _

end Steps

/-- The parser that a text of length `n` hands to its nested expressions. -/
def below (n : Nat) : Phrase Expr := fun s =>
  if s.length < n then expr s else .failed false s []

theorem expr_apply (s : List Char) : expr s = phrase (below s.length) .choice s := by
  rw [expr, fix_apply]
  exact layer_apply (below s.length) s

theorem below_of_lt {n : Nat} {s : List Char} (h : s.length < n) :
    below n s = phrase (below s.length) .choice s := by
  rw [below, if_pos h, expr_apply]

theorem below_progress {n : Nat} (s : List Char) (e : Expr) (t : List Char)
    (h : below n s = .done e t) : t.length < s.length := by
  unfold below at h
  split at h
  · exact (derives_of_expr h).length_lt
  · simp at h

theorem below_refuses {n : Nat} {c : Char} {r s : List Char} (hs : dropBlanks s = c :: r)
    (hc : c ∈ [')', '\x7d']) : Refuses (below n) s := by
  by_cases hlt : s.length < n
  · have h := phrase_refuses (below s.length) hs hc .choice
    rwa [Refuses, ← below_of_lt hlt] at h
  · exact ⟨s, [], if_neg hlt⟩

/-- The text goes on with a closing character. -/
def Closes (t : List Char) : Prop := ∃ c r, Blanks t (c :: r) ∧ c ∈ [')', '\x7d']

theorem Closes.stops {t : List Char} (h : Closes t) : Stops .choice t := by
  obtain ⟨c, r, hblanks, hc⟩ := h
  simp only [List.mem_cons, List.not_mem_nil, or_false] at hc
  rcases hc with rfl | rfl
  all_goals exact stops_of_closing hblanks

theorem Closes.head_ne_comma {t : List Char} (h : Closes t) : (dropBlanks t).head? ≠ some ',' := by
  obtain ⟨c, r, hblanks, hc⟩ := h
  simp only [List.mem_cons, List.not_mem_nil, or_false] at hc
  rcases hc with rfl | rfl <;> rw [hblanks.eq_cons (by decide)] <;> simp

theorem Closes.refuses {t : List Char} (h : Closes t) (n : Nat) : Refuses (below n) t := by
  obtain ⟨c, r, hblanks, hc⟩ := h
  refine below_refuses (hblanks.eq_cons ?_) hc
  simp only [List.mem_cons, List.not_mem_nil, or_false] at hc
  rcases hc with rfl | rfl <;> decide

/-- A whole nested expression is read. -/
theorem below_of_phrase {n : Nat} {s t : List Char} {e : Expr} (shorter : s.length < n)
    (h : ∀ k, s.length ≤ k → Stops .choice t →
      phrase (below k) .choice s = resume (below k) .choice e t)
    (stops : Stops .choice t) : below n s = .done e t := by
  rw [below_of_lt shorter, h _ (Nat.le_refl _) stops, resume_of_stops _ stops]

/-- A whole phrase of a level is read. -/
theorem phrase_of_resume {nested : Phrase Expr} {l l' : Level} {s t : List Char} {e : Expr}
    (h : Stops l'.inner t → phrase nested l' s = resume nested l' e t) (stops : Stops l t)
    (hl : l.rank ≤ l'.rank) : phrase nested l' s = .done e t := by
  have hstops : Stops l' t := stops.mono hl
  rw [h (hstops.mono l'.rank_le_inner), resume_of_stops nested hstops]

mutual

/-- After a phrase the parser of its level is where it would be after that phrase as its first
operand, if the text behind stops the last operand. -/
theorem Derives.read {l : Level} {s t : List Char} {e : Expr} : Derives l s e t →
    ∀ n, s.length ≤ n → Stops l.inner t → phrase (below n) l s = resume (below n) l e t
  | @Derives.tighter l l' s t e hbelow h => fun n hn stops => by
    have hfirst : phrase (below n) l' s = .done e t :=
      phrase_of_resume (h.read n hn) stops (Level.inner_le_rank hbelow)
    by_cases hl : l = .signed
    · -- signs are looked for first, and there is none
      subst hl
      obtain rfl : l' = .accessed := by simpa [Level.tighter] using hbelow.symm
      have hsign := signed_of_no_sign (below n) (h.no_sign (.inl rfl))
      exact hsign.trans (bind_of_done hfirst _)
    · rw [phrase_eq_bind (below n) hbelow hl, bind_of_done hfirst]
  | @Derives.choice s m m₁ m₂ m₃ t c a b condition mark first colon second => fun n hn stops => by
    have h₁ := condition.length_lt
    have h₂ := mark.length_lt
    have h₃ := first.length_lt
    have h₄ := colon.length_lt
    have hcondition : phrase (below n) .disjunction s = .done c m :=
      phrase_of_resume (condition.read n hn)
        (stops_of_blanks mark (by decide) (by decide) (by simp [continued, Level.rank]))
        (Nat.le_refl _)
    have ha : below n m₁ = .done a m₂ :=
      below_of_phrase (by omega) first.read (stops_of_closing colon)
    have hb : below n m₃ = .done b t := below_of_phrase (by omega) second.read stops
    have hstep := choiceStep_eq_done (mark.eq_cons (by decide)) ha (colon.eq_cons (by decide)) hb
    rw [phrase_eq_bind (l := .choice) (below n) rfl (by decide), bind_of_done hcondition,
      resume_of_stops _ (l := .choice) stops]
    exact bind_of_done (optional_eq_done_some.mpr hstep) _
  | @Derives.joined l l' s m m₁ m₂ t left right e join hbelow first gap op second tree =>
      fun n hn stops => by
    have h₁ := first.length_lt
    have h₂ := gap.length_le
    have h₃ := op.length_lt
    have h₄ := second.length_lt
    rw [op.inner_eq hbelow] at stops
    obtain ⟨c, r, rfl, hc, hblank, hpoint⟩ := op.head
    have hrank := Level.rank_of_tighter hbelow
    have hstops : Stops l' m := by
      refine stops_of_blanks gap hblank hpoint fun k hk => ?_
      obtain rfl : l = k := by simpa [hc] using hk
      omega
    have hsecond : phrase (below n) l' m₂ = .done right t :=
      phrase_of_resume (second.read n (by omega)) stops (Nat.le_refl _)
    have hfirst := first.read n hn (by rwa [op.inner_eq hbelow])
    rw [← gap.eq_cons hblank] at op
    rw [hfirst, resume_joined hbelow op hsecond (by omega), tree]
  | @Derives.comparison s m m₁ t left right op first mem gap second => fun n hn stops => by
    have h₁ := first.length_lt
    have h₂ := gap.length_le
    rw [List.length_append] at h₂
    obtain ⟨c, r, hsymbol, hc, hblank, hpoint⟩ := comparison_head mem m₁
    have hop := symbol_of_comparison mem second.head_ne_equals
    rw [hsymbol] at gap hop
    have hfirst : phrase (below n) .sum s = .done left m :=
      phrase_of_resume (first.read n hn)
        (stops_of_blanks gap hblank hpoint (by simp [hc, Level.rank])) (Nat.le_refl _)
    have hsecond : phrase (below n) .sum m₁ = .done right t :=
      phrase_of_resume (second.read n (by omega)) stops (by decide)
    rw [← gap.eq_cons hblank] at hop
    have hstep := operandStep_eq_done hop hsecond
    rw [phrase_eq_bind (l := .comparison) (below n) rfl (by decide), bind_of_done hfirst,
      resume_of_stops _ (l := .comparison) stops]
    exact bind_of_done (optional_eq_done_some.mpr hstep) _
  | .signed gap sign operand => fun n hn stops => by
    have h₁ := gap.length_le
    have h₂ := sign.length_lt
    rw [← gap.eq_of_endsBefore sign.endsBefore] at sign
    exact signed_of_sign sign (operand.read n (by omega) stops)
  | .field target point name => fun n hn stops => by
    have h₁ := point.length_lt
    have h₂ := name.length_lt
    have hparen : (dropBlanks _).head? ≠ some '(' := stops.head_ne rfl (Nat.le_refl _)
    have haccess : access (below n) _ = .done (.field _) _ :=
      access_field (point.eq_cons (by decide)) name hparen
    rw [target.read n hn (stops_of_point point name), resume_access haccess (by omega)]
    rfl
  | .call target point name opening arguments closing => fun n hn stops => by
    have h₁ := target.length_lt
    have h₂ := point.length_lt
    have h₃ := name.length_lt
    have h₄ := opening.length_lt
    have h₅ := arguments.length_le
    have h₆ := closing.length_lt
    have hitems := arguments.read n (by omega) ⟨_, _, closing, by decide⟩
    have haccess := access_call (point.eq_cons (by decide)) name (opening.eq_cons (by decide))
      hitems (closing.eq_cons (by decide))
    rw [target.read n hn (stops_of_point point name), resume_access haccess (by omega)]
    rfl
  | .index target opening position closing => fun n hn stops => by
    have h₁ := target.length_lt
    have h₂ := opening.length_lt
    have h₃ := position.length_lt
    have h₄ := closing.length_lt
    have hposition := below_of_phrase (n := n) (by omega) position.read (stops_of_closing closing)
    have haccess := access_index (opening.eq_cons (by decide)) hposition
      (closing.eq_cons (by decide))
    have hstops := stops_of_blanks (l := .primary) opening (by decide) (by decide)
      (by simp [continued, Level.rank])
    rw [target.read n hn hstops, resume_access haccess (by omega)]
    rfl
  | .enclosed opening inside closing => fun n hn stops => by
    have h₁ := opening.length_lt
    exact primary_enclosed (opening.eq_cons (by decide))
      (below_of_phrase (by omega) inside.read (stops_of_closing closing))
      (closing.eq_cons (by decide))
  | .list opening items closing => fun n hn stops => by
    have h₁ := opening.length_lt
    exact primary_list (opening.eq_cons (by decide))
      (items.read n (by omega) ⟨_, _, closing, by decide⟩) (closing.eq_cons (by decide))
  | .literal gap text => fun n hn stops => by
    rw [← gap.eq_of_endsBefore text.endsBefore] at text
    exact primary_literal text stops.noFraction
  | .marked mark name => fun n hn stops => primary_marked (mark.eq_cons (by decide)) name
  | .bare gap name free => fun n hn stops => by
    rw [← gap.eq_of_endsBefore name.endsBefore] at name
    exact primary_bare name free

/-- Items are read up to the character that closes their list. -/
theorem Items.read {s t : List Char} {es : List Expr} : Items s es t →
    ∀ n, s.length < n → Closes t → sepBy (below n) comma s = .done es t
  | .none => fun n hn closes => sepBy_none (closes.refuses n)
  | .last item => fun n hn closes =>
    sepBy_last (below_of_phrase hn item.read closes.stops) closes.head_ne_comma
  | .more item comma others => fun n hn closes => by
    have h₁ := item.length_lt
    have h₂ := comma.length_lt
    exact sepBy_more below_progress (below_of_phrase hn item.read (stops_of_closing comma))
      (comma.eq_cons (by decide)) (others.read n (by omega) closes)

end

/-- A phrase of the loosest level with nothing but blanks behind it is read whole. -/
theorem parse_of_describes {source : String} {e : Expr} (h : Describes source e) :
    parse source = .ok e := by
  obtain ⟨t, hphrase, hblanks⟩ := h
  have hstops : Stops .choice t := stops_of_end hblanks
  have hexpr : expr source.toList = .done e t := by
    rw [expr_apply, hphrase.read _ (Nat.le_refl _) hstops, resume_of_stops _ hstops]
  have hcondition : condition source.toList = .done e [] := by
    have hdrop : dropBlanks t = [] := hblanks.dropBlanks_eq
    rw [condition, bind_of_done hexpr, blanks_bind, hdrop, succeed_apply]
  rw [parse, hcondition]

/-- A point is tighter than a sign, and AND is tighter than OR. -/
example : parse "a or not b.c and 1<2" = .ok (.or (.var "a")
    (.and (.unary .not (.field (.var "b") "c")) (.binary .lt (.literal (.int 1))
      (.literal (.int 2))))) := by decide +kernel

/-- Productions do not exclude each other, but a source has one tree at most. -/
theorem Describes.unique {source : String} {e e' : Expr} (h : Describes source e)
    (h' : Describes source e') : e = e' :=
  Except.ok.inj ((parse_of_describes h).symm.trans (parse_of_describes h'))

/-- The parser accepts exactly the sources that the grammar derives, with the derived tree. -/
theorem parse_eq_ok_iff (source : String) (e : Expr) : parse source = .ok e ↔ Describes source e :=
  ⟨describes_of_parse, parse_of_describes⟩

end Rulebook.Condition.Grammar
