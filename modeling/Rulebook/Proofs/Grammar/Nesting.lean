import Mathlib.Tactic.SplitIfs
import Rulebook.Proofs.Grammar.Tokens

/-!
# Parentheses and quotes

Which parentheses of a text belong together can be told without parsing it: count those that are
open, and pass over quoted texts. Every phrase of the language closes just what it opens, so the
parenthesis that ends an enclosed text is the first one that the text itself does not account for.
-/
namespace Rulebook.Condition.Grammar
open Text

/-- Where one stands in a text with some parentheses open: outside of quoted texts, in one, or
behind a backslash in one. -/
inductive Place where
  | outside (depth : Nat)
  | single (depth : Nat)
  | double (depth : Nat)
  | escaping (depth : Nat)
deriving DecidableEq, Repr

namespace Place

/-- One character further; `none` behind a parenthesis that closes nothing. A doubled quote ends
one quoted text and begins another, which comes to the same. -/
def next? : Place → Char → Option Place
  | outside depth, c =>
    if c = '(' then some (outside (depth + 1))
    else if c = ')' then
      match depth with
      | 0 => none
      | depth + 1 => some (outside depth)
    else if c = '\x27' then some (single depth)
    else if c = '\x22' then some (double depth)
    else some (outside depth)
  | single depth, c => some (if c = '\x27' then outside depth else single depth)
  | double depth, c =>
    some (if c = '\x22' then outside depth else if c = '\\' then escaping depth else double depth)
  | escaping depth, _ => some (double depth)

/-- The place behind a text. -/
def behind? (place : Place) (s : List Char) : Option Place := s.foldlM next? place

/-- The same place with more parentheses around the whole text. -/
def within (n : Nat) : Place → Place
  | outside depth => outside (n + depth)
  | single depth => single (n + depth)
  | double depth => double (n + depth)
  | escaping depth => escaping (n + depth)

@[simp] theorem behind?_cons (place : Place) (c : Char) (s : List Char) :
    place.behind? (c :: s) = (place.next? c).bind fun place => place.behind? s := rfl

@[simp] theorem behind?_append (place : Place) (s t : List Char) :
    place.behind? (s ++ t) = (place.behind? s).bind fun place => place.behind? t :=
  List.foldlM_append

/-- What a text does to a place it does within parentheses, too. -/
theorem next?_within {place place' : Place} {c : Char} (h : place.next? c = some place') (n : Nat) :
    (place.within n).next? c = some (place'.within n) := by
  cases place with
  | outside depth =>
    by_cases hc : c = ')'
    · subst hc
      cases depth with
      | zero => exact nomatch h
      | succ depth =>
        obtain rfl := Option.some.inj h
        rfl
    · simp only [next?, if_neg hc, within] at h ⊢
      split_ifs at h ⊢ <;> (obtain rfl := Option.some.inj h; rfl)
  | single | double =>
    obtain rfl := Option.some.inj h
    simp only [next?, within]
    split_ifs <;> rfl
  | escaping =>
    obtain rfl := Option.some.inj h
    rfl

theorem behind?_within {place place' : Place} {s : List Char} (h : place.behind? s = some place')
    (n : Nat) : (place.within n).behind? s = some (place'.within n) := by
  induction s generalizing place with
  | nil =>
    obtain rfl := Option.some.inj h
    rfl
  | cons c s ih =>
    obtain ⟨middle, hnext, hrest⟩ := Option.bind_eq_some_iff.mp h
    rw [behind?_cons, next?_within hnext, Option.bind_some, ih hrest]

end Place

/-- The text closes the parentheses it opens and no others, and ends its quoted texts. -/
def Paired (s : List Char) : Prop := Place.behind? (.outside 0) s = some (.outside 0)

instance : DecidablePred Paired := fun _ => inferInstanceAs (Decidable (_ = _))

theorem paired_nil : Paired [] := rfl

theorem Paired.behind? {s : List Char} (h : Paired s) (n : Nat) :
    Place.behind? (.outside n) s = some (.outside n) := Place.behind?_within h n

theorem Paired.append {s t : List Char} (h : Paired s) (h' : Paired t) : Paired (s ++ t) := by
  rw [Paired, Place.behind?_append, h, Option.bind_some, h']

theorem Paired.enclosed {s : List Char} (h : Paired s) : Paired ('(' :: (s ++ [')'])) := by
  have hopen : Place.next? (.outside 0) '(' = some (.outside 1) := rfl
  rw [Paired, Place.behind?_cons, hopen, Option.bind_some, Place.behind?_append, h.behind?]
  rfl

/-- Neither a parenthesis nor a quote. -/
def isPlain (c : Char) : Bool := c ∉ ['(', ')', '\x27', '\x22']

theorem isPlain_of {p : Char → Bool} {c : Char} (h : p c = true)
    (hp : ['(', ')', '\x27', '\x22'].any p = false := by decide) : isPlain c = true :=
  decide_eq_true fun hc => List.any_eq_false.mp hp c hc h

theorem paired_of_plain {s : List Char} (h : ∀ c ∈ s, isPlain c = true) : Paired s := by
  induction s with
  | nil => rfl
  | cons c s ih =>
    have hc := h c (by simp)
    simp only [isPlain, decide_eq_true_eq, List.mem_cons, List.not_mem_nil, or_false,
      not_or] at hc
    have hnext : Place.next? (.outside 0) c = some (.outside 0) := by simp [Place.next?, hc]
    rw [Paired, Place.behind?_cons, hnext]
    exact ih fun d hd => h d (by simp [hd])

/-- A paired text does not go on to the parenthesis that closes it. -/
theorem Paired.not_paired_append {s : List Char} (h : Paired s) (t : List Char) :
    ¬ Paired (s ++ ')' :: t) := by
  rw [Paired, Place.behind?_append, h]
  exact nofun

/-- The closing parenthesis behind a paired text is found from the text alone. -/
theorem Paired.eq_of_closed {s s' t t' : List Char} (h : Paired s) (h' : Paired s')
    (heq : s ++ ')' :: t = s' ++ ')' :: t') : s = s' ∧ t = t' := by
  rcases List.append_eq_append_iff.mp heq with ⟨u, rfl, hu⟩ | ⟨u, rfl, hu⟩
  · cases u with
    | nil => simpa using hu
    | cons c u =>
      obtain ⟨rfl, -⟩ : ')' = c ∧ t = u ++ ')' :: t' := by simpa using hu
      exact absurd h' (h.not_paired_append u)
  · cases u with
    | nil => simpa [eq_comm] using hu
    | cons c u =>
      obtain ⟨rfl, -⟩ : ')' = c ∧ t' = u ++ ')' :: t := by simpa using hu
      exact absurd h (h'.not_paired_append u)

theorem behind?_doubled (n : Nat) (cs : List Char) :
    Place.behind? (.single n) (doubled cs) = some (.single n) := by
  induction cs with
  | nil => rfl
  | cons c cs ih =>
    by_cases hc : c = '\x27'
    · subst hc
      rw [doubled_quote]
      exact ih
    · rw [doubled_cons_of_ne hc, Place.behind?_cons, Place.next?, if_neg hc]
      exact ih

theorem DoubleQuotedText.behind? {body cs : List Char} (h : DoubleQuotedText body cs) (n : Nat) :
    Place.behind? (.double n) body = some (.double n) := by
  induction h with
  | nil => rfl
  | plain hq hb _ ih => simpa [Place.next?, hq, hb] using ih
  | quote _ ih | backslash _ ih | newline _ ih | tab _ ih | kept _ _ ih => exact ih

/-- The first text is the second behind a paired one. -/
def Spans (s t : List Char) : Prop := ∃ w, s = w ++ t ∧ Paired w

theorem Spans.refl (s : List Char) : Spans s s := ⟨[], rfl, paired_nil⟩

theorem Spans.trans {s t u : List Char} (h : Spans s t) (h' : Spans t u) : Spans s u := by
  obtain ⟨w, rfl, hw⟩ := h
  obtain ⟨w', rfl, hw'⟩ := h'
  exact ⟨w ++ w', (List.append_assoc w w' u).symm, hw.append hw'⟩

theorem Spans.enclosed {s t : List Char} (h : Spans s (')' :: t)) : Spans ('(' :: s) t := by
  obtain ⟨w, rfl, hw⟩ := h
  exact ⟨'(' :: (w ++ [')']), by simp, hw.enclosed⟩

theorem spans_of_plain {w : List Char} (h : ∀ c ∈ w, isPlain c = true) (t : List Char) :
    Spans (w ++ t) t := ⟨w, rfl, paired_of_plain h⟩

theorem Spans.cons {c : Char} {s t : List Char} (h : Spans s t)
    (hc : isPlain c = true := by decide) : Spans (c :: s) t := by
  obtain ⟨w, rfl, hw⟩ := h
  exact ⟨c :: w, rfl, (paired_of_plain (s := [c]) (by simpa using hc)).append hw⟩

theorem Blanks.spans {s t : List Char} (h : Blanks s t) : Spans s t := by
  obtain ⟨bs, hbs, rfl⟩ := h
  exact spans_of_plain (fun c hc => isPlain_of (hbs c hc)) t

theorem Name.spans {s t : List Char} {n : String} (h : Name s n t) : Spans s t := by
  obtain ⟨hn, rfl, -⟩ := h
  exact spans_of_plain (fun d hd => isPlain_of (hn.isNameChar hd)) t

theorem Word.spans {w : String} {s t : List Char} (h : Word w s t) (hw : w ∈ reserved) :
    Spans s t := (h.name (isName_of_reserved hw)).spans

theorem DigitRun.spans {s ds t : List Char} (h : DigitRun s ds t) : Spans s t := by
  obtain ⟨-, rfl, hds, -⟩ := h
  exact spans_of_plain (fun c hc => isPlain_of (hds c hc)) t

theorem LiteralText.spans {s t : List Char} {v : Value} (h : LiteralText s v t) : Spans s t := by
  cases h with
  | @singleQuoted cs =>
    refine ⟨'\x27' :: (doubled cs ++ ['\x27']), by simp, ?_⟩
    have hquote : Place.next? (.outside 0) '\x27' = some (.single 0) := rfl
    rw [Paired, Place.behind?_cons, hquote, Option.bind_some, Place.behind?_append, behind?_doubled]
    rfl
  | @doubleQuoted body _ _ inside =>
    refine ⟨'\x22' :: (body ++ ['\x22']), by simp, ?_⟩
    have hquote : Place.next? (.outside 0) '\x22' = some (.double 0) := rfl
    rw [Paired, Place.behind?_cons, hquote, Option.bind_some, Place.behind?_append, inside.behind?]
    rfl
  | float front behind => exact front.spans.trans behind.spans.cons
  | int digits => exact digits.spans
  | yes word | no word | null word => exact word.spans (by decide)

theorem Sign.spans {s t : List Char} {op : UnaryOp} (h : Sign s op t) : Spans s t := by
  cases h with
  | bang | minus => exact (Spans.refl t).cons
  | word word => exact word.spans (by decide)

theorem spans_symbol (op : BinaryOp) (t : List Char) : Spans (op.symbol.toList ++ t) t :=
  spans_of_plain (List.all_eq_true.mp (by cases op <;> decide)) t

theorem Joins.spans {l : Level} {s t : List Char} {join : Expr → Expr → Expr}
    (h : Joins l s join t) : Spans s t := by
  cases h with
  | or word | and word => exact word.spans (by decide)
  | bars | ampersands => exact (Spans.refl t).cons.cons
  | symbol => exact spans_symbol _ t

mutual

/-- A phrase is a paired text. -/
theorem Derives.spans {l : Level} {s t : List Char} {e : Expr} : Derives l s e t → Spans s t
  | .tighter _ h => h.spans
  | .choice condition mark first colon second =>
    condition.spans.trans <| mark.spans.trans
      (first.spans.trans (colon.spans.trans second.spans.cons)).cons
  | .joined _ first gap op second _ =>
    first.spans.trans <| gap.spans.trans <| op.spans.trans second.spans
  | .comparison first _ gap second =>
    first.spans.trans <| gap.spans.trans <| (spans_symbol _ _).trans second.spans
  | .signed gap sign operand => gap.spans.trans <| sign.spans.trans operand.spans
  | .field target point name => target.spans.trans <| point.spans.trans name.spans.cons
  | .call target point name opening arguments closing =>
    target.spans.trans <| point.spans.trans <| Spans.cons <| name.spans.trans <|
      opening.spans.trans (arguments.spans.trans closing.spans).enclosed
  | .index target opening position closing =>
    target.spans.trans <| opening.spans.trans <| Spans.cons <| position.spans.trans <|
      closing.spans.trans (Spans.refl _).cons
  | .enclosed opening inside closing =>
    opening.spans.trans (inside.spans.trans closing.spans).enclosed
  | .list opening items closing =>
    opening.spans.trans <| Spans.cons <| items.spans.trans <|
      closing.spans.trans (Spans.refl _).cons
  | .literal gap text => gap.spans.trans text.spans
  | .marked mark name => mark.spans.trans name.spans.cons
  | .bare gap name _ => gap.spans.trans name.spans

theorem Items.spans {s t : List Char} {es : List Expr} : Items s es t → Spans s t
  | .none => .refl _
  | .last item => item.spans
  | .more item comma others =>
    item.spans.trans <| comma.spans.trans others.spans.cons

end

/-- A condition that parses is paired. -/
theorem Describes.paired {source : String} {e : Expr} (h : Describes source e) :
    Paired source.toList := by
  obtain ⟨t, phrase, gap⟩ := h
  obtain ⟨w, hw, paired⟩ := phrase.spans.trans gap.spans
  rwa [hw, List.append_nil]

end Rulebook.Condition.Grammar
