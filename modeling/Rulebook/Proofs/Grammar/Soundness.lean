import Rulebook.Proofs.Grammar.Levels

/-!
# What is read is a phrase

Each level of the parser is followed through its own steps, given that nested expressions are
phrases. A chain of operators is folded from the left, and so is its derivation: the invariant of
the chain is that what has been joined so far is a phrase of the level.
-/
namespace Rulebook.Condition.Grammar
open Text Text.Parser

theorem var_eq_done {s t : List Char} {e : Expr} :
    var s = .done e t ↔ (∃ m n, s = '#' :: m ∧ Name m n t ∧ e = .var n) ∨
      s.head? ≠ some '#' ∧ ∃ n, Name s n t ∧ n ∉ reserved ∧ e = .var n := by
  have hmark : Parser.optional (char '#' : Phrase Unit) s = .done none s ↔ s.head? ≠ some '#' := by
    rw [optional_eq_done_none, ← refuses_char_iff]
    exact and_iff_left rfl
  simp only [var, bind_eq_done]
  constructor
  · rintro ⟨o, r, ho, h⟩
    cases o with
    | some u =>
      rw [optional_eq_done_some, char_eq_done] at ho
      simp only [bind_eq_done, expecting_eq_done, commit_eq_done, name_eq_done, succeed_apply,
        Outcome.done.injEq] at h
      obtain ⟨n, _, hn, rfl, rfl⟩ := h
      exact .inl ⟨r, n, ho, hn, rfl⟩
    | none =>
      obtain ⟨-, rfl⟩ := optional_eq_done_none.mp ho
      simp only [bind_eq_done, accept_eq_done, name_eq_done, succeed_apply,
        Outcome.done.injEq] at h
      obtain ⟨n, _, ⟨n', hn, hfree⟩, rfl, rfl⟩ := h
      split at hfree
      · simp at hfree
      · next free =>
        obtain rfl : n' = n := by simpa using hfree
        exact .inr ⟨hmark.mp ho, n', hn, free, rfl⟩
  · rintro (⟨m, n, rfl, hn, rfl⟩ | ⟨hs, n, hn, free, rfl⟩)
    · refine ⟨some (), m, optional_eq_done_some.mpr (char_eq_done.mpr rfl), ?_⟩
      simp only [bind_eq_done, expecting_eq_done, commit_eq_done, name_eq_done, succeed_apply]
      exact ⟨n, t, hn, rfl⟩
    · refine ⟨none, s, hmark.mpr hs, ?_⟩
      simp only [bind_eq_done, accept_eq_done, name_eq_done, succeed_apply]
      exact ⟨n, t, ⟨n, hn, by simp [free]⟩, rfl⟩

section Sound

variable {nested : Phrase Expr}
  (sound : ∀ s e t, nested s = .done e t → Derives .choice s e t)
include sound

theorem items_of_repeats {s t : List Char} {e : Expr} {es : List Expr} {m : List Char}
    (first : Derives .choice s e m)
    (h : Repeats (do comma; nested) m es t) : Items s (e :: es) t := by
  induction h generalizing s e with
  | stop => exact .last first
  | step hstep _ ih =>
    simp only [bind_eq_done, comma_eq_done] at hstep
    obtain ⟨_, r, hr, hnested⟩ := hstep
    exact .more first (blanks_of_dropBlanks hr) (ih (sound _ _ _ hnested))

theorem items_of_sepBy {s t : List Char} {es : List Expr} (h : sepBy nested comma s = .done es t) :
    Items s es t := by
  simp only [sepBy, bind_eq_done] at h
  obtain ⟨o, r, ho, h⟩ := h
  cases o with
  | none =>
    obtain ⟨-, rfl⟩ := optional_eq_done_none.mp ho
    obtain ⟨rfl, rfl⟩ : [] = es ∧ r = t := by simpa using h
    exact .none
  | some first =>
    simp only [bind_eq_done, succeed_apply, Outcome.done.injEq] at h
    obtain ⟨others, m, hmany, rfl, rfl⟩ := h
    exact items_of_repeats sound (sound _ _ _ (optional_eq_done_some.mp ho)) (repeats_of_many hmany)

theorem derives_of_primary {s t : List Char} {e : Expr} (h : primary nested s = .done e t) :
    Derives .primary s e t := by
  simp only [primary, bind_eq_done, blanks_eq_done, expecting_eq_done, orElse_eq_done] at h
  obtain ⟨_, s', hgap, h⟩ := h
  replace hgap := blanks_of_dropBlanks hgap
  rcases h with h | ⟨-, h | ⟨-, h | ⟨-, h⟩⟩⟩
  · simp only [parenthesized, bind_eq_done, char_eq_done, closing_eq_done, succeed_apply,
      Outcome.done.injEq] at h
    obtain ⟨_, m, hm, e', m₁, hnested, _, _, hclose, rfl, rfl⟩ := h
    exact .enclosed (hm ▸ hgap) (sound _ _ _ hnested) (blanks_of_dropBlanks hclose)
  · simp only [listLiteral, bind_eq_done, char_eq_done, closing_eq_done, succeed_apply,
      Outcome.done.injEq] at h
    obtain ⟨_, m, hm, es, m₁, hitems, _, _, hclose, rfl, rfl⟩ := h
    exact .list (hm ▸ hgap) (items_of_sepBy sound hitems) (blanks_of_dropBlanks hclose)
  · simp only [succeed_apply, Outcome.done.injEq] at h
    obtain ⟨v, _, hv, rfl, rfl⟩ := h
    exact .literal hgap (literalText_of_literal hv)
  · rcases var_eq_done.mp h with ⟨m, n, hm, hn, rfl⟩ | ⟨-, n, hn, free, rfl⟩
    · exact .marked (hm ▸ hgap) hn
    · exact .bare hgap hn free

theorem derives_of_access {s m t : List Char} {e : Expr} {a : Access} (h : Derives .accessed s e m)
    (ha : access nested m = .done a t) : Derives .accessed s (a.apply e) t := by
  simp only [access, bind_eq_done, blanks_eq_done, orElse_eq_done] at ha
  obtain ⟨_, m', hgap, ha⟩ := ha
  replace hgap := blanks_of_dropBlanks hgap
  rcases ha with ha | ⟨-, ha⟩
  · simp only [member, bind_eq_done, char_eq_done, expecting_eq_done, commit_eq_done,
      name_eq_done] at ha
    obtain ⟨_, m₁, rfl, n, m₂, hn, o, r, ho, ha⟩ := ha
    cases o with
    | some args =>
      obtain ⟨rfl, rfl⟩ : Access.call n args = a ∧ r = t := by simpa using ha
      simp only [optional_eq_done_some, arguments, bind_eq_done, blanks_eq_done, char_eq_done,
        closing_eq_done, succeed_apply, Outcome.done.injEq] at ho
      obtain ⟨_, _, hopen, _, m₃, rfl, args', m₄, hitems, _, _, hclose, rfl, rfl⟩ := ho
      exact .call h hgap hn (blanks_of_dropBlanks hopen) (items_of_sepBy sound hitems)
        (blanks_of_dropBlanks hclose)
    | none =>
      obtain ⟨-, rfl⟩ := optional_eq_done_none.mp ho
      obtain ⟨rfl, rfl⟩ : Access.field n = a ∧ r = t := by simpa using ha
      exact .field h hgap hn
  · simp only [index, bind_eq_done, char_eq_done, commit_eq_done, closing_eq_done, succeed_apply,
      Outcome.done.injEq] at ha
    obtain ⟨_, m₁, rfl, i, m₂, hi, _, _, hclose, rfl, rfl⟩ := ha
    exact .index h hgap (sound _ _ _ hi) (blanks_of_dropBlanks hclose)

theorem derives_of_accessed {s t : List Char} {e : Expr} (h : accessed nested s = .done e t) :
    Derives .accessed s e t := by
  simp only [accessed, bind_eq_done, succeed_apply, Outcome.done.injEq] at h
  obtain ⟨target, m, htarget, steps, _, hsteps, rfl, rfl⟩ := h
  have first : Derives .accessed s target m :=
    .tighter rfl (derives_of_primary sound htarget)
  clear htarget
  replace hsteps := repeats_of_many hsteps
  induction hsteps generalizing target with
  | stop => exact first
  | step hstep _ ih => exact ih _ (derives_of_access sound first hstep)

theorem derives_of_signed {s t : List Char} {e : Expr} (h : signed nested s = .done e t) :
    Derives .signed s e t := by
  rw [signed_eq_bind, bind_eq_done] at h
  obtain ⟨ops, m, hops, htail⟩ := h
  obtain ⟨operand, hoperand, rfl⟩ := accessed_of_signedTail nested htail
  have last : Derives .signed m operand t := .tighter rfl (derives_of_accessed sound hoperand)
  clear hoperand htail
  replace hops := repeats_of_many hops
  induction hops with
  | stop => exact last
  | step hstep _ ih =>
    exact .signed (blanks_dropBlanks _) (signStep_eq_done.mp hstep) (ih last)

end Sound

/-- A chain of operators of one level, folded from the left. -/
theorem derives_of_leftGrouped {ω : Type} {op : Phrase ω} {operand : Phrase Expr}
    {join : ω → Expr → Expr → Expr} {l l' : Level} (below : l.tighter = some l')
    (hop : ∀ s o t, op s = .done o t → Joins l s (join o) t)
    (hoperand : ∀ s e t, operand s = .done e t → Derives l' s e t) {s t : List Char} {e : Expr}
    (h : leftGrouped op operand join s = .done e t) : Derives l s e t := by
  simp only [leftGrouped, bind_eq_done, succeed_apply, Outcome.done.injEq] at h
  obtain ⟨left, m, hleft, others, _, hothers, rfl, rfl⟩ := h
  have first : Derives l s left m := .tighter below (hoperand _ _ _ hleft)
  clear hleft
  replace hothers := repeats_of_many hothers
  induction hothers generalizing left with
  | stop => exact first
  | step hstep _ ih =>
    simp only [bind_eq_done, blanks_eq_done, commit_eq_done, succeed_apply,
      Outcome.done.injEq] at hstep
    obtain ⟨_, m₁, hgap, o, m₂, ho, right, _, hright, rfl, rfl⟩ := hstep
    exact ih _ (.joined below first (blanks_of_dropBlanks hgap) (hop _ _ _ ho)
      (hoperand _ _ _ hright) rfl)

section Sound

variable {nested : Phrase Expr}
  (sound : ∀ s e t, nested s = .done e t → Derives .choice s e t)
include sound

theorem derives_of_product {s t : List Char} {e : Expr} (h : product nested s = .done e t) :
    Derives .product s e t :=
  derives_of_leftGrouped (l := .product) rfl (fun _ _ _ ho => joins_of_symbol ho)
    (fun _ _ _ => derives_of_signed sound) h

theorem derives_of_sum {s t : List Char} {e : Expr} (h : sum nested s = .done e t) :
    Derives .sum s e t :=
  derives_of_leftGrouped (l := .sum) rfl (fun _ _ _ ho => joins_of_symbol ho)
    (fun _ _ _ => derives_of_product sound) h

theorem derives_of_comparison {s t : List Char} {e : Expr} (h : comparison nested s = .done e t) :
    Derives .comparison s e t := by
  simp only [comparison, bind_eq_done] at h
  obtain ⟨left, m, hleft, o, r, ho, h⟩ := h
  cases o with
  | some pair =>
    obtain ⟨op, right⟩ := pair
    obtain ⟨rfl, rfl⟩ : Expr.binary op left right = e ∧ r = t := by simpa using h
    simp only [optional_eq_done_some, bind_eq_done, blanks_eq_done, commit_eq_done, succeed_apply,
      Outcome.done.injEq, Prod.mk.injEq] at ho
    obtain ⟨_, m₁, hgap, _, m₂, hop, _, _, hright, ⟨rfl, rfl⟩, rfl⟩ := ho
    obtain ⟨mem, rfl⟩ := mem_of_symbol hop
    exact .comparison (derives_of_sum sound hleft) mem (blanks_of_dropBlanks hgap)
      (derives_of_sum sound hright)
  | none =>
    obtain ⟨-, rfl⟩ := optional_eq_done_none.mp ho
    obtain ⟨rfl, rfl⟩ : left = e ∧ r = t := by simpa using h
    exact .tighter rfl (derives_of_sum sound hleft)

theorem derives_of_equality {s t : List Char} {e : Expr} (h : equality nested s = .done e t) :
    Derives .equality s e t :=
  derives_of_leftGrouped (l := .equality) rfl (fun _ _ _ ho => joins_of_symbol ho)
    (fun _ _ _ => derives_of_comparison sound) h

theorem derives_of_conjunction {s t : List Char} {e : Expr}
    (h : conjunction nested s = .done e t) : Derives .conjunction s e t :=
  derives_of_leftGrouped rfl (fun _ _ _ ho => joins_of_andOp ho)
    (fun _ _ _ => derives_of_equality sound) h

theorem derives_of_disjunction {s t : List Char} {e : Expr}
    (h : disjunction nested s = .done e t) : Derives .disjunction s e t :=
  derives_of_leftGrouped rfl (fun _ _ _ ho => joins_of_orOp ho)
    (fun _ _ _ => derives_of_conjunction sound) h

theorem derives_of_choice {s t : List Char} {e : Expr} (h : choice nested s = .done e t) :
    Derives .choice s e t := by
  simp only [choice, bind_eq_done] at h
  obtain ⟨c, m, hc, o, r, ho, h⟩ := h
  cases o with
  | some pair =>
    obtain ⟨a, b⟩ := pair
    obtain ⟨rfl, rfl⟩ : Expr.ternary c a b = e ∧ r = t := by simpa using h
    simp only [optional_eq_done_some, bind_eq_done, blanks_eq_done, char_eq_done, commit_eq_done,
      branches, succeed_apply, Outcome.done.injEq, Prod.mk.injEq] at ho
    obtain ⟨_, _, hmark, _, m₁, rfl, _, m₂, ha, _, _, hcolon, _, m₃, rfl, _, _, hb, ⟨rfl, rfl⟩,
      rfl⟩ := ho
    exact .choice (derives_of_disjunction sound hc) (blanks_of_dropBlanks hmark) (sound _ _ _ ha)
      (blanks_of_dropBlanks hcolon) (sound _ _ _ hb)
  | none =>
    obtain ⟨-, rfl⟩ := optional_eq_done_none.mp ho
    obtain ⟨rfl, rfl⟩ : c = e ∧ r = t := by simpa using h
    exact .tighter rfl (derives_of_disjunction sound hc)

end Sound

/-- Every expression that is read is a phrase of the loosest level. -/
theorem derives_of_expr {s t : List Char} {e : Expr} (h : expr s = .done e t) :
    Derives .choice s e t := by
  refine fix_keeps (fun nested sound s e t h => ?_) s e t h
  rw [layer_apply] at h
  exact derives_of_choice sound h

theorem describes_of_parse {source : String} {e : Expr} (h : parse source = .ok e) :
    Describes source e := by
  unfold parse at h
  split at h
  · next e' heq =>
    obtain rfl : e' = e := by simpa using h
    simp only [condition, bind_eq_done, blanks_eq_done, succeed_apply, Outcome.done.injEq] at heq
    obtain ⟨_, t, hexpr, _, _, hblanks, rfl, rfl⟩ := heq
    exact ⟨t, derives_of_expr hexpr, blanks_of_dropBlanks hblanks⟩
  · simp at h
  · simp at h

end Rulebook.Condition.Grammar
