import Mathlib.Algebra.BigOperators.Group.List.Basic
import Mathlib.Algebra.GroupWithZero.Nat
import Rulebook.Proofs.Decimal
import Rulebook.Proofs.Grammar.Printing

/-!
# Quotes and points

Whether the literals of a tree are printed as literals shows in a count. The text of a phrase has at
least the quotes and points that the printed tree has. It has more of them if a string of the tree
holds a single quote, which the phrase writes twice or between double quotes, or if a float is
printed without the point that the phrase has.
-/
namespace Rulebook.Condition

open Text Text.Parser Decimal

namespace Grammar

/-- Strings and floats that are printed as literals: no single quote, and a point. -/
def FaithfulLiteral : Expr → Prop
  | .literal (.string s) => '\x27' ∉ s.toList
  | .literal (.float x) => '.' ∈ Value.floatChars x
  | _ => True

/-- Quotes and points count. A string between double quotes is heavier than one between single
quotes, so that no text of a string is lighter than its printed text. -/
def weight (c : Char) : Nat :=
  if c = '\x27' then 1 else if c = '\x22' then 2 else if c = '.' then 1 else 0

def marks (cs : List Char) : Nat := (cs.map weight).sum

@[simp] theorem marks_nil : marks [] = 0 := rfl

@[simp] theorem marks_cons (c : Char) (cs : List Char) : marks (c :: cs) = weight c + marks cs := by
  simp [marks]

@[simp] theorem marks_append (cs ds : List Char) : marks (cs ++ ds) = marks cs + marks ds := by
  simp [marks]

theorem marks_of_all {p : Char → Bool} {cs : List Char} (h : ∀ c ∈ cs, p c = true)
    (hp : ['\x27', '\x22', '.'].any p = false) : marks cs = 0 := by
  refine List.sum_eq_zero fun n hn => ?_
  obtain ⟨c, hc, rfl⟩ := List.mem_map.mp hn
  have hne (d : Char) (hd : d ∈ ['\x27', '\x22', '.']) : c ≠ d := by
    rintro rfl
    exact List.any_eq_false.mp hp c hd (h c hc)
  simp [weight, hne]

theorem marks_digits {ds : List Char} (h : IsDigits ds) : marks ds = 0 :=
  marks_of_all h.2 (by decide)

theorem Blanks.marks_eq {s t : List Char} (h : Blanks s t) : marks s = marks t := by
  obtain ⟨bs, hbs, rfl⟩ := h
  simp [marks_of_all hbs (by decide)]

theorem Blanks.marks_cons {c : Char} {s t : List Char} (h : Blanks s (c :: t)) :
    marks s = weight c + marks t := h.marks_eq

theorem Name.marks_eq {s t : List Char} {n : String} (h : Name s n t) :
    marks n.toList = 0 ∧ marks s = marks t := by
  obtain ⟨hn, rfl, -⟩ := h
  have hzero := marks_of_all (fun c hc => hn.isNameChar (d := c) hc) (by decide)
  rw [marks_append, hzero, Nat.zero_add]
  exact ⟨rfl, rfl⟩

theorem Word.marks_eq {w : String} {s t : List Char} (h : Word w s t)
    (hw : marks w.toList = 0) : marks s = marks t := by
  rw [h.1, marks_append, hw, Nat.zero_add]

theorem DigitRun.marks_eq {s ds t : List Char} (h : DigitRun s ds t) :
    marks s = marks t := by
  obtain ⟨-, rfl, hds, -⟩ := h
  rw [marks_append, marks_of_all hds (by decide), Nat.zero_add]

theorem marks_symbol (op : BinaryOp) : marks op.symbol.toList = 0 := by cases op <;> decide

theorem Sign.marks_eq {s t : List Char} {op : UnaryOp} (h : Sign s op t) :
    marks s = marks t := by
  cases h with
  | word word => exact word.marks_eq (by decide)
  | bang | minus => simp [weight]

theorem Joins.marks_eq {l : Level} {s t : List Char} {join : Expr → Expr → Expr}
    (h : Joins l s join t) : marks s = marks t := by
  cases h with
  | or word | and word => exact word.marks_eq (by decide)
  | bars | ampersands => simp [weight]
  | symbol => rw [marks_append, marks_symbol, Nat.zero_add]

theorem marks_doubled (cs : List Char) : marks (doubled cs) = marks cs + cs.count '\x27' := by
  induction cs with
  | nil => rfl
  | cons c cs ih =>
    by_cases hc : c = '\x27'
    · subst hc
      simp [weight, ih]
      omega
    · rw [doubled_cons_of_ne hc]
      simp [ih, List.count_cons_of_ne, hc]
      omega

theorem DoubleQuotedText.marks_eq {body cs : List Char} (h : DoubleQuotedText body cs) :
    marks body = marks cs := by
  induction h with
  | _ => simp_all [weight]

theorem marks_string (s : String) : marks (Value.string s).chars = marks s.toList + 2 := by
  simp [Value.chars, weight]
  omega

/-- A printed float has no quotes and at most one point. -/
theorem marks_floatChars (x : Float) :
    marks (Value.floatChars x) = if '.' ∈ Value.floatChars x then 1 else 0 := by
  have hbody {body : List Char} (h : Positional body) :
      marks body = if '.' ∈ body then 1 else 0 := by
    cases h with
    | whole digits => rw [marks_digits digits, if_neg digits.not_mem_point]
    | pointed front behind => simp [marks_digits front, marks_digits behind, weight]
  rcases floatChars_cases x with hword | ⟨body, hpositional, hchars⟩
  · simp only [List.mem_cons, List.not_mem_nil, or_false] at hword
    rcases hword with h | h | h <;> rw [h] <;> decide
  · rw [hchars]
    split
    · simpa [weight] using hbody hpositional
    · exact hbody hpositional

/-- The text of a phrase is as heavy as the printed tree, and heavier if a literal of the tree is
not printed as one. -/
structure Outweighs (s : List Char) (e : Expr) (t : List Char) : Prop where
  le : marks e.chars + marks t ≤ marks s
  faithful : marks s = marks e.chars + marks t → e.Everywhere FaithfulLiteral

/-- A leaf without quotes and points. -/
theorem outweighs_leaf {s t : List Char} {e : Expr} (here : FaithfulLiteral e)
    (leaf : e.children = []) (printed : marks e.chars = 0) (text : marks t ≤ marks s) :
    Outweighs s e t := ⟨by omega, fun _ => .leaf here leaf⟩

theorem LiteralText.outweighs {s t : List Char} {v : Value} (h : LiteralText s v t) :
    Outweighs s (.literal v) t := by
  cases h with
  | @singleQuoted cs _ closed =>
    have hprinted : marks (Value.string (String.ofList cs)).chars = marks cs + 2 := by
      rw [marks_string, String.toList_ofList]
    have htext : marks ('\x27' :: (doubled cs ++ '\x27' :: t)) =
        marks cs + cs.count '\x27' + 2 + marks t := by
      simp [marks_doubled, weight]
      omega
    refine ⟨?_, fun heq => .leaf ?_ rfl⟩
    · rw [Expr.chars, hprinted, htext]
      omega
    · rw [Expr.chars, hprinted, htext] at heq
      rw [FaithfulLiteral, String.toList_ofList]
      exact List.count_eq_zero.mp (by omega)
  | @doubleQuoted body cs _ inside =>
    have hprinted : marks (Value.string (String.ofList cs)).chars = marks cs + 2 := by
      rw [marks_string, String.toList_ofList]
    have htext : marks ('\x22' :: (body ++ '\x22' :: t)) = marks cs + 4 + marks t := by
      simp [inside.marks_eq, weight]
      omega
    refine ⟨?_, fun heq => ?_⟩
    · rw [Expr.chars, hprinted, htext]
      omega
    · rw [Expr.chars, hprinted, htext] at heq
      omega
  | float front behind =>
    have htext : marks s = 1 + marks t := by
      rw [front.marks_eq, marks_cons, behind.marks_eq]
      rfl
    refine ⟨?_, fun heq => .leaf ?_ rfl⟩
    · rw [htext, Expr.chars, Value.chars, marks_floatChars]
      split <;> omega
    · rw [htext, Expr.chars, Value.chars, marks_floatChars] at heq
      rw [FaithfulLiteral]
      by_contra hpoint
      rw [if_neg hpoint] at heq
      omega
  | int digits range =>
    refine outweighs_leaf trivial rfl ?_ (Nat.le_of_eq digits.marks_eq.symm)
    rw [Expr.chars, Value.chars, Int64.toInt_ofNat_of_lt range, intChars_natCast]
    exact marks_digits (isDigits_natChars _)
  | yes word | no word | null word =>
    exact outweighs_leaf trivial rfl (by decide) (Nat.le_of_eq (word.marks_eq (by decide)).symm)

@[simp] theorem marks_enclosed (left : List Char) (symbol : String) (right : List Char) :
    marks (Expr.enclosed left symbol right) = marks left + marks symbol.toList + marks right := by
  simp [Expr.enclosed, weight]
  omega

theorem marks_var {n : String} (hn : marks n.toList = 0) : marks (Expr.var n).chars = 0 := by
  simp [Expr.chars, weight, hn]

theorem marks_list (items : List Expr) :
    marks (Expr.list items).chars = marks (Expr.listChars items) := by
  simp [Expr.chars, weight]

theorem marks_listChars_cons (e e' : Expr) (es : List Expr) :
    marks (Expr.listChars (e :: e' :: es)) = marks e.chars + marks (Expr.listChars (e' :: es)) := by
  simp [Expr.listChars, weight]

theorem marks_unary (op : UnaryOp) (e : Expr) : marks (Expr.unary op e).chars = marks e.chars := by
  have hsymbol : marks op.symbol.toList = 0 := by cases op <;> decide
  simp [Expr.chars, hsymbol]

theorem marks_ternary (c a b : Expr) :
    marks (Expr.ternary c a b).chars = marks c.chars + marks a.chars + marks b.chars := by
  simp [Expr.chars, weight]
  omega

theorem marks_call (target : Expr) {n : String} (hn : marks n.toList = 0) (args : List Expr) :
    marks (Expr.call target n args).chars =
      marks target.chars + 1 + marks (Expr.listChars args) := by
  simp [Expr.chars, weight, hn]
  omega

theorem marks_index (target position : Expr) :
    marks (Expr.index target position).chars = marks target.chars + marks position.chars := by
  simp [Expr.chars, weight]

theorem Joins.marks_join {l : Level} {s t : List Char} {join : Expr → Expr → Expr}
    (h : Joins l s join t) (left right : Expr) :
    marks (join left right).chars = marks left.chars + marks right.chars := by
  cases h with
  | or | bars | and | ampersands => simp [Expr.chars, weight]
  | symbol => simp [Expr.chars, marks_symbol]

theorem Joins.faithful {l : Level} {s t : List Char} {join : Expr → Expr → Expr}
    (h : Joins l s join t) {left right : Expr} (hleft : left.Everywhere FaithfulLiteral)
    (hright : right.Everywhere FaithfulLiteral) : (join left right).Everywhere FaithfulLiteral := by
  have below : ∀ c ∈ [left, right], c.Everywhere FaithfulLiteral := by simp [hleft, hright]
  cases h <;> exact .node trivial below

mutual

theorem Derives.outweighs {l : Level} {s t : List Char} {e : Expr} :
    Derives l s e t → Outweighs s e t
  | .tighter _ h => h.outweighs
  | .choice condition mark first colon second => by
    have ⟨h₁, h₁'⟩ := condition.outweighs
    have ⟨h₂, h₂'⟩ := first.outweighs
    have ⟨h₃, h₃'⟩ := second.outweighs
    have hmark := mark.marks_cons
    have hcolon := colon.marks_cons
    refine ⟨?_, fun heq => .node trivial ?_⟩
    · rw [marks_ternary]
      omega
    · rw [marks_ternary] at heq
      simp only [Expr.children, List.forall_mem_cons]
      exact ⟨h₁' (by omega), h₂' (by omega), h₃' (by omega), List.forall_mem_nil _⟩
  | .joined _ first gap op second tree => by
    have ⟨h₁, h₁'⟩ := first.outweighs
    have ⟨h₂, h₂'⟩ := second.outweighs
    have hgap := gap.marks_eq
    have hop := op.marks_eq
    rw [← tree]
    refine ⟨?_, fun heq => ?_⟩
    · rw [op.marks_join]
      omega
    · rw [op.marks_join] at heq
      exact op.faithful (h₁' (by omega)) (h₂' (by omega))
  | .comparison first _ gap second => by
    have ⟨h₁, h₁'⟩ := first.outweighs
    have ⟨h₂, h₂'⟩ := second.outweighs
    have hgap := gap.marks_eq
    rw [marks_append, marks_symbol] at hgap
    refine ⟨?_, fun heq => .node trivial ?_⟩
    · rw [Expr.chars, marks_enclosed, marks_symbol]
      omega
    · rw [Expr.chars, marks_enclosed, marks_symbol] at heq
      simp only [Expr.children, List.forall_mem_cons]
      exact ⟨h₁' (by omega), h₂' (by omega), List.forall_mem_nil _⟩
  | .signed gap sign operand => by
    have ⟨h₁, h₁'⟩ := operand.outweighs
    have hgap := gap.marks_eq
    have hsign := sign.marks_eq
    refine ⟨?_, fun heq => .node trivial ?_⟩
    · rw [marks_unary]
      omega
    · rw [marks_unary] at heq
      exact List.forall_mem_singleton.mpr (h₁' (by omega))
  | .field target point name => by
    have ⟨h₁, h₁'⟩ := target.outweighs
    have hpoint := point.marks_cons
    have ⟨hzero, hname⟩ := name.marks_eq
    have hone : weight '.' = 1 := rfl
    refine ⟨?_, fun heq => .node trivial ?_⟩
    · rw [Expr.chars, marks_append, marks_cons, hzero]
      omega
    · rw [Expr.chars, marks_append, marks_cons, hzero] at heq
      exact List.forall_mem_singleton.mpr (h₁' (by omega))
  | .call target point name opening arguments closing => by
    have ⟨h₁, h₁'⟩ := target.outweighs
    have ⟨h₂, h₂'⟩ := arguments.outweighs
    have hpoint := point.marks_cons
    have ⟨hzero, hname⟩ := name.marks_eq
    have hopening := opening.marks_cons
    have hclosing := closing.marks_cons
    have hone : weight '.' = 1 := rfl
    refine ⟨?_, fun heq => .node trivial ?_⟩
    · rw [marks_call _ hzero]
      omega
    · rw [marks_call _ hzero] at heq
      exact List.forall_mem_cons.mpr ⟨h₁' (by omega), h₂' (by omega)⟩
  | .index target opening position closing => by
    have ⟨h₁, h₁'⟩ := target.outweighs
    have ⟨h₂, h₂'⟩ := position.outweighs
    have hopening := opening.marks_cons
    have hclosing := closing.marks_cons
    refine ⟨?_, fun heq => .node trivial ?_⟩
    · rw [marks_index]
      omega
    · rw [marks_index] at heq
      simp only [Expr.children, List.forall_mem_cons]
      exact ⟨h₁' (by omega), h₂' (by omega), List.forall_mem_nil _⟩
  | .enclosed opening inside closing => by
    have ⟨h, h'⟩ := inside.outweighs
    have hopening := opening.marks_cons
    have hclosing := closing.marks_cons
    exact ⟨by omega, fun heq => h' (by omega)⟩
  | .list opening items closing => by
    have ⟨h, h'⟩ := items.outweighs
    have hopening := opening.marks_cons
    have hclosing := closing.marks_cons
    refine ⟨?_, fun heq => .node trivial (h' ?_)⟩
    · rw [marks_list]
      omega
    · rw [marks_list] at heq
      omega
  | .literal gap text => by
    have ⟨h, h'⟩ := text.outweighs
    have hgap := gap.marks_eq
    exact ⟨by omega, fun heq => h' (by omega)⟩
  | .marked mark name => by
    have hmark := mark.marks_cons
    have ⟨hzero, hname⟩ := name.marks_eq
    exact outweighs_leaf trivial rfl (marks_var hzero) (by omega)
  | .bare gap name _ => by
    have hgap := gap.marks_eq
    have ⟨hzero, hname⟩ := name.marks_eq
    exact outweighs_leaf trivial rfl (marks_var hzero) (by omega)

theorem Items.outweighs {s t : List Char} {es : List Expr} :
    Items s es t → marks (Expr.listChars es) + marks t ≤ marks s ∧
      (marks s = marks (Expr.listChars es) + marks t → ∀ e ∈ es, e.Everywhere FaithfulLiteral)
  | .none => ⟨by simp [Expr.listChars], fun _ => List.forall_mem_nil _⟩
  | .last item => by
    have ⟨h, h'⟩ := item.outweighs
    exact ⟨h, fun heq => List.forall_mem_singleton.mpr (h' heq)⟩
  | .more item comma others => by
    have ⟨h₁, h₁'⟩ := item.outweighs
    have ⟨h₂, h₂'⟩ := others.outweighs
    have hcomma := comma.marks_cons
    refine ⟨?_, fun heq => List.forall_mem_cons.mpr ?_⟩
    · rw [marks_listChars_cons]
      omega
    · rw [marks_listChars_cons] at heq
      exact ⟨h₁' (by omega), h₂' (by omega)⟩

end

/-- A tree that is read from its own printed text has literals that are printed as literals. -/
theorem Describes.faithful {e : Expr} (h : Describes e.text e) : e.Everywhere FaithfulLiteral := by
  obtain ⟨t, derives, rest⟩ := h
  have ⟨hle, hfaithful⟩ := derives.outweighs
  have hrest : marks t = 0 := rest.marks_eq
  rw [Expr.text, String.toList_ofList] at hle hfaithful
  exact hfaithful (by omega)

end Grammar

end Rulebook.Condition
