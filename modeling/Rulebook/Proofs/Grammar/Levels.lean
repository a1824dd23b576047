import Rulebook.Condition.Grammar
import Rulebook.Proofs.Grammar.Tokens

/-!
# The levels as parsers

`phrase` names the parser of a level, and `resume` is what that parser does once its first operand
is read. Blanks in front of a phrase make no difference, so one layer of the grammar is a choice.
-/
namespace Rulebook.Condition.Grammar
open Text Text.Parser

theorem blanks_bind {α : Type} (f : Unit → Phrase α) (s : List Char) :
    (blanks >>= f) s = f () (dropBlanks s) := bind_of_done (blanks_apply s) f

theorem char_bind {α : Type} (c : Char) (f : Unit → Phrase α) (t : List Char) :
    (char c >>= f) (c :: t) = f () t := bind_of_done (char_eq_done.mpr rfl) f

/-- Blanks in front of a character that must be there. -/
theorem closing_eq_done {c : Char} {s t : List Char} {u : Unit} :
    closing c s = .done u t ↔ dropBlanks s = c :: t := by
  simp [closing, bind_eq_done, char_eq_done]

theorem closing_bind {α : Type} {c : Char} {s t : List Char} (h : dropBlanks s = c :: t)
    (f : Unit → Phrase α) : (closing c >>= f) s = f () t := bind_of_done (closing_eq_done.mpr h) f

theorem comma_eq_done {s t : List Char} {u : Unit} :
    comma s = .done u t ↔ dropBlanks s = ',' :: t := by
  simp [comma, bind_eq_done, char_eq_done]

theorem blanks_of_dropBlanks {s t : List Char} (h : dropBlanks s = t) : Blanks s t :=
  h ▸ blanks_dropBlanks s

/-- The parser of a sign behind blanks. -/
def signStep : Phrase UnaryOp := do
  blanks
  unaryOp

/-- The parser of a further operand of a level that chains. -/
def operandStep {ω : Type} (op : Phrase ω) (operand : Phrase Expr) : Phrase (ω × Expr) := do
  blanks
  let o ← op
  let right ← commit operand
  succeed (o, right)

section Levels

variable (nested : Phrase Expr)

/-- The parser of the part of a choice behind its condition. -/
def choiceStep : Phrase (Expr × Expr) := do
  blanks
  char '?'
  commit (branches nested)

/-- The parser of a level. -/
def phrase : Level → Phrase Expr
  | .choice => choice nested
  | .disjunction => disjunction nested
  | .conjunction => conjunction nested
  | .equality => equality nested
  | .comparison => comparison nested
  | .sum => sum nested
  | .product => product nested
  | .signed => signed nested
  | .accessed => accessed nested
  | .primary => primary nested

/-- Further operands of a level that chains, joined to what is read already. -/
def resumeGrouped {ω : Type} (op : Phrase ω) (operand : Phrase Expr)
    (join : ω → Expr → Expr → Expr) (left : Expr) : Phrase Expr := do
  let others ← many (operandStep op operand)
  succeed (others.foldl (fun left (o, right) => join o left right) left)

/-- What a level goes on with once its first operand is read. -/
def resume : Level → Expr → Phrase Expr
  | .choice, e => do
    match ← Parser.optional (choiceStep nested) with
    | some (a, b) => succeed (.ternary e a b)
    | none => succeed e
  | .disjunction, e => resumeGrouped orOp (conjunction nested) (fun _ => .or) e
  | .conjunction, e => resumeGrouped andOp (equality nested) (fun _ => .and) e
  | .equality, e => resumeGrouped (symbol [.eq, .ne]) (comparison nested) .binary e
  | .comparison, e => do
    match ← Parser.optional (operandStep (symbol comparisons) (sum nested)) with
    | some (op, right) => succeed (.binary op e right)
    | none => succeed e
  | .sum, e => resumeGrouped (symbol [.add, .sub]) (product nested) .binary e
  | .product, e => resumeGrouped (symbol [.mul, .div, .rem]) (signed nested) .binary e
  | .accessed, e => do
    let steps ← many (access nested)
    succeed (steps.foldl Access.apply e)
  | .signed, e => succeed e
  | .primary, e => succeed e

/-- Only signs come in front of the first operand. -/
theorem phrase_eq_bind {l l' : Level} (below : l.tighter = some l') (hl : l ≠ .signed) :
    phrase nested l = phrase nested l' >>= resume nested l := by
  cases l <;> simp [Level.tighter] at below hl <;> subst below <;> rfl

theorem bind_apply_congr {α β : Type} {p : Phrase α} {s s' : List Char} (h : p s = p s')
    (f : α → Phrase β) : (p >>= f) s = (p >>= f) s' := by
  cases hs : p s with
  | done a t => rw [bind_of_done hs, bind_of_done (h ▸ hs)]
  | failed committed t e => rw [bind_of_failed hs, bind_of_failed (h ▸ hs)]

theorem blanks_bind_dropBlanks {α : Type} (f : Unit → Phrase α) (s : List Char) :
    (blanks >>= f) (dropBlanks s) = (blanks >>= f) s := by
  rw [blanks_bind, blanks_bind, dropBlanks_dropBlanks]

theorem accessed_dropBlanks (s : List Char) : accessed nested (dropBlanks s) = accessed nested s :=
  bind_apply_congr (blanks_bind_dropBlanks _ s) _

theorem neverCommits_signStep : NeverCommits signStep :=
  NeverCommits.bind (fun _ _ _ h => by simp at h) fun _ => neverCommits_unaryOp

theorem signStep_eq_done {s t : List Char} {op : UnaryOp} :
    signStep s = .done op t ↔ Sign (dropBlanks s) op t := by
  simp [signStep, bind_eq_done, unaryOp_eq_done]

theorem Sign.length_lt {s t : List Char} {op : UnaryOp} (h : Sign s op t) :
    t.length < s.length := by
  cases h with
  | bang | minus => simp
  | word h =>
    obtain ⟨rfl, -⟩ := h
    have hlen : "not".toList.length = 3 := rfl
    rw [List.length_append]
    omega

/-- The parser of signs and what they apply to, after the signs are read. -/
def signedTail (ops : List UnaryOp) : Phrase Expr := do
  let e ← if ops.isEmpty then accessed nested else commit (accessed nested)
  succeed (ops.foldr .unary e)

theorem signed_eq_bind : signed nested = many signStep >>= signedTail nested := rfl

/-- The signs are put in front of what is read behind them. -/
theorem accessed_of_signedTail {ops : List UnaryOp} {s t : List Char} {e : Expr}
    (h : signedTail nested ops s = .done e t) :
    ∃ operand, accessed nested s = .done operand t ∧ ops.foldr .unary operand = e := by
  unfold signedTail at h
  split at h
  all_goals
    simp only [bind_eq_done, commit_eq_done, succeed_apply, Outcome.done.injEq] at h
    obtain ⟨operand, _, hoperand, rfl, rfl⟩ := h
    exact ⟨operand, hoperand, rfl⟩

theorem signed_dropBlanks (s : List Char) : signed nested (dropBlanks s) = signed nested s := by
  have hstep : signStep (dropBlanks s) = signStep s := blanks_bind_dropBlanks _ s
  rw [signed_eq_bind]
  cases hs : signStep s with
  | done op r =>
    have hlt := (signStep_eq_done.mp hs).length_lt
    refine bind_apply_congr ?_ _
    rw [many_of_done hs (Nat.lt_of_lt_of_le hlt (dropBlanks_length_le s)),
      many_of_done (hstep.trans hs) hlt]
  | failed committed r e =>
    cases committed with
    | true => exact absurd hs (neverCommits_signStep s r e)
    | false =>
      rw [bind_of_done (many_of_failed hs), bind_of_done (many_of_failed (hstep.trans hs))]
      exact bind_apply_congr (accessed_dropBlanks nested s) _

/-- Blanks in front of a phrase make no difference to its parser. -/
theorem phrase_dropBlanks (l : Level) (s : List Char) :
    phrase nested l (dropBlanks s) = phrase nested l s := by
  induction l using Level.of_tighter with
  | tightest => exact blanks_bind_dropBlanks _ s
  | step l l' below ih =>
    by_cases hl : l = .signed
    · subst hl
      exact signed_dropBlanks nested s
    · rw [phrase_eq_bind nested below hl]
      exact bind_apply_congr ih _

/-- The blanks that a layer reads first are read again by the choice. -/
theorem layer_apply (s : List Char) : layer nested s = choice nested s :=
  (blanks_bind _ s).trans (phrase_dropBlanks nested .choice s)

end Levels

end Rulebook.Condition.Grammar
