import Mathlib.Algebra.Group.Nat.Defs
import Rulebook.Condition.Grammar
import Rulebook.Proofs.Text.Refusal

/-!
# The condition language as a grammar

A phrase is related to the text it begins with and to the text behind it, so lookahead is a
condition on the text behind. Productions neither order nor commit: a text may have several
beginnings that are phrases of one level. Lookahead occurs in words only. Names and digit runs are
as long as they can be, and a word operator or word literal ends where a name would end.

Binary levels are left recursive, which is how they group; the branches of a choice are choices.
-/
namespace Rulebook.Condition.Grammar
open Text Text.Parser

/-- The first text is the second with blanks in front. -/
def Blanks (s t : List Char) : Prop :=
  ∃ bs : List Char, (∀ c ∈ bs, isBlank c = true) ∧ s = bs ++ t

/-- A letter or underscore, then letters, digits and underscores. -/
def IsName (n : String) : Prop :=
  ∃ c cs, n.toList = c :: cs ∧ isNameStart c = true ∧ ∀ d ∈ cs, isNameChar d = true

/-- A whole name. -/
def Name (s : List Char) (n : String) (t : List Char) : Prop :=
  IsName n ∧ s = n.toList ++ t ∧ EndsBefore isNameChar t

/-- The given word, not continued to a longer name. -/
def Word (w : String) (s t : List Char) : Prop := s = w.toList ++ t ∧ EndsBefore isNameChar t

/-- A whole run of digits. -/
def DigitRun (s ds t : List Char) : Prop :=
  ds ≠ [] ∧ s = ds ++ t ∧ (∀ d ∈ ds, d.isDigit = true) ∧ EndsBefore Char.isDigit t

/-- Every single quote twice. -/
def doubled (cs : List Char) : List Char :=
  cs.flatMap fun c => if c = '\x27' then ['\x27', '\x27'] else [c]

/-- What stands between double quotes, and the characters it denotes. -/
inductive DoubleQuotedText : List Char → List Char → Prop
  | nil : DoubleQuotedText [] []
  | plain {c : Char} {body cs : List Char} (hq : c ≠ '\x22') (hb : c ≠ '\\')
      (rest : DoubleQuotedText body cs) : DoubleQuotedText (c :: body) (c :: cs)
  | quote {body cs : List Char} (rest : DoubleQuotedText body cs) :
      DoubleQuotedText ('\\' :: '\x22' :: body) ('\x22' :: cs)
  | backslash {body cs : List Char} (rest : DoubleQuotedText body cs) :
      DoubleQuotedText ('\\' :: '\\' :: body) ('\\' :: cs)
  | newline {body cs : List Char} (rest : DoubleQuotedText body cs) :
      DoubleQuotedText ('\\' :: 'n' :: body) ('\n' :: cs)
  | tab {body cs : List Char} (rest : DoubleQuotedText body cs) :
      DoubleQuotedText ('\\' :: 't' :: body) ('\t' :: cs)
  | kept {c : Char} {body cs : List Char} (hc : c ∉ ['\x22', '\\', 'n', 't'])
      (rest : DoubleQuotedText body cs) : DoubleQuotedText ('\\' :: c :: body) ('\\' :: c :: cs)

/-- A literal and the value it denotes. A single-quoted text ends at the first quote that is not
doubled, so no further quote may follow it. -/
inductive LiteralText : List Char → Value → List Char → Prop
  | singleQuoted {cs t : List Char} (closed : t.head? ≠ some '\x27') :
      LiteralText ('\x27' :: (doubled cs ++ '\x27' :: t)) (.string (String.ofList cs)) t
  | doubleQuoted {body cs t : List Char} (inside : DoubleQuotedText body cs) :
      LiteralText ('\x22' :: (body ++ '\x22' :: t)) (.string (String.ofList cs)) t
  | float {s whole m fraction t : List Char} (front : DigitRun s whole ('.' :: m))
      (behind : DigitRun m fraction t) :
      LiteralText s (.float (Decimal.Digits.written whole fraction 0).nearest) t
  | int {s ds t : List Char} (digits : DigitRun s ds t) (range : Decimal.natOfChars ds < 2 ^ 63) :
      LiteralText s (.int (Int64.ofNat (Decimal.natOfChars ds))) t
  | yes {s t : List Char} (word : Word "true" s t) : LiteralText s (.bool true) t
  | no {s t : List Char} (word : Word "false" s t) : LiteralText s (.bool false) t
  | null {s t : List Char} (word : Word "null" s t) : LiteralText s .null t

/-- A sign in front of an operand. -/
inductive Sign : List Char → UnaryOp → List Char → Prop
  | bang {t : List Char} : Sign ('!' :: t) .not t
  | word {s t : List Char} (word : Word "not" s t) : Sign s .not t
  | minus {t : List Char} : Sign ('-' :: t) .neg t

/-- The levels of the grammar, from the loosest to the tightest. -/
inductive Level where
  | choice | disjunction | conjunction | equality | comparison | sum | product | signed | accessed
  | primary
deriving DecidableEq, Repr

namespace Level

/-- The next tighter level. -/
def tighter : Level → Option Level
  | choice => some disjunction
  | disjunction => some conjunction
  | conjunction => some equality
  | equality => some comparison
  | comparison => some sum
  | sum => some product
  | product => some signed
  | signed => some accessed
  | accessed => some primary
  | primary => none

/-- Tighter levels have larger ranks. -/
def rank : Level → Nat
  | choice => 0
  | disjunction => 1
  | conjunction => 2
  | equality => 3
  | comparison => 4
  | sum => 5
  | product => 6
  | signed => 7
  | accessed => 8
  | primary => 9

theorem rank_of_tighter {l l' : Level} (below : l.tighter = some l') : l'.rank = l.rank + 1 := by
  cases l <;> simp only [tighter, Option.some.injEq, reduceCtorEq] at below <;> subst below <;> rfl

theorem rank_le_primary (l : Level) : l.rank ≤ rank primary := by cases l <;> decide

theorem rank_injective : Function.Injective rank := by
  intro l l' h
  cases l <;> cases l' <;> first | rfl | exact absurd h (by decide)

theorem exists_tighter {l l' : Level} (h : l.rank < l'.rank) : ∃ k, l.tighter = some k := by
  cases l with
  | primary => cases l' <;> exact absurd h (by decide)
  | _ => exact ⟨_, rfl⟩

/-- What holds of primaries and passes on to each next looser level holds of all levels. -/
theorem of_tighter {P : Level → Prop} (tightest : P primary)
    (step : ∀ l l', l.tighter = some l' → P l' → P l) (l : Level) : P l := by
  have haccessed := step accessed primary rfl tightest
  have hproduct := step product signed rfl (step signed accessed rfl haccessed)
  have hcomparison := step comparison sum rfl (step sum product rfl hproduct)
  have hconjunction := step conjunction equality rfl (step equality comparison rfl hcomparison)
  have hdisjunction := step disjunction conjunction rfl hconjunction
  cases l with
  | choice => exact step choice disjunction rfl hdisjunction
  | disjunction => exact hdisjunction
  | conjunction => exact hconjunction
  | equality => exact step equality comparison rfl hcomparison
  | comparison => exact hcomparison
  | sum => exact step sum product rfl hproduct
  | product => exact hproduct
  | signed => exact step signed accessed rfl haccessed
  | accessed => exact haccessed
  | primary => exact tightest

/-- The symbols of a level that chains. -/
def symbols : Level → List BinaryOp
  | equality => [.eq, .ne]
  | sum => [.add, .sub]
  | product => [.mul, .div, .rem]
  | _ => []

end Level

/-- The symbols of a comparison, which does not chain. -/
def comparisons : List BinaryOp := [.ge, .gt, .le, .lt]

/-- An operator of a level that chains, and how it joins two trees. -/
inductive Joins : Level → List Char → (Expr → Expr → Expr) → List Char → Prop
  | or {s t : List Char} (word : Word "or" s t) : Joins .disjunction s .or t
  | bars {t : List Char} : Joins .disjunction ('|' :: '|' :: t) .or t
  | and {s t : List Char} (word : Word "and" s t) : Joins .conjunction s .and t
  | ampersands {t : List Char} : Joins .conjunction ('&' :: '&' :: t) .and t
  | symbol {l : Level} {op : BinaryOp} {t : List Char} (mem : op ∈ l.symbols) :
      Joins l (op.symbol.toList ++ t) (.binary op) t

mutual

/-- `Derives l s e t`: the text `s` begins with a phrase of level `l` for the tree `e`, and `t` is
the text behind the phrase. -/
inductive Derives : Level → List Char → Expr → List Char → Prop
  | tighter {l l' : Level} {s t : List Char} {e : Expr} (below : l.tighter = some l')
      (phrase : Derives l' s e t) : Derives l s e t
  | choice {s m m₁ m₂ m₃ t : List Char} {c a b : Expr} (condition : Derives .disjunction s c m)
      (mark : Blanks m ('?' :: m₁)) (first : Derives .choice m₁ a m₂)
      (colon : Blanks m₂ (':' :: m₃)) (second : Derives .choice m₃ b t) :
      Derives .choice s (.ternary c a b) t
  | joined {l l' : Level} {s m m₁ m₂ t : List Char} {left right e : Expr}
      {join : Expr → Expr → Expr} (below : l.tighter = some l') (first : Derives l s left m)
      (gap : Blanks m m₁) (op : Joins l m₁ join m₂) (second : Derives l' m₂ right t)
      (tree : join left right = e) : Derives l s e t
  | comparison {s m m₁ t : List Char} {left right : Expr} {op : BinaryOp}
      (first : Derives .sum s left m) (mem : op ∈ comparisons)
      (gap : Blanks m (op.symbol.toList ++ m₁)) (second : Derives .sum m₁ right t) :
      Derives .comparison s (.binary op left right) t
  | signed {s m m₁ t : List Char} {op : UnaryOp} {e : Expr} (gap : Blanks s m)
      (sign : Sign m op m₁) (operand : Derives .signed m₁ e t) :
      Derives .signed s (.unary op e) t
  | field {s m m₁ t : List Char} {e : Expr} {n : String} (target : Derives .accessed s e m)
      (point : Blanks m ('.' :: m₁)) (name : Name m₁ n t) :
      Derives .accessed s (.field e n) t
  | call {s m m₁ m₂ m₃ m₄ t : List Char} {e : Expr} {n : String} {args : List Expr}
      (target : Derives .accessed s e m) (point : Blanks m ('.' :: m₁)) (name : Name m₁ n m₂)
      (opening : Blanks m₂ ('(' :: m₃)) (arguments : Items m₃ args m₄)
      (closing : Blanks m₄ (')' :: t)) : Derives .accessed s (.call e n args) t
  | index {s m m₁ m₂ t : List Char} {e i : Expr} (target : Derives .accessed s e m)
      (opening : Blanks m ('[' :: m₁)) (position : Derives .choice m₁ i m₂)
      (closing : Blanks m₂ (']' :: t)) : Derives .accessed s (.index e i) t
  | enclosed {s m m₁ t : List Char} {e : Expr} (opening : Blanks s ('(' :: m))
      (inside : Derives .choice m e m₁) (closing : Blanks m₁ (')' :: t)) : Derives .primary s e t
  | list {s m m₁ t : List Char} {es : List Expr} (opening : Blanks s ('\x7b' :: m))
      (items : Items m es m₁) (closing : Blanks m₁ ('\x7d' :: t)) :
      Derives .primary s (.list es) t
  | literal {s m t : List Char} {v : Value} (gap : Blanks s m) (text : LiteralText m v t) :
      Derives .primary s (.literal v) t
  | marked {s m t : List Char} {n : String} (mark : Blanks s ('#' :: m)) (name : Name m n t) :
      Derives .primary s (.var n) t
  | bare {s m t : List Char} {n : String} (gap : Blanks s m) (name : Name m n t)
      (free : n ∉ reserved) : Derives .primary s (.var n) t

/-- Expressions with commas between them, possibly none. -/
inductive Items : List Char → List Expr → List Char → Prop
  | none {s : List Char} : Items s [] s
  | last {s t : List Char} {e : Expr} (item : Derives .choice s e t) : Items s [e] t
  | more {s m m₁ t : List Char} {e e' : Expr} {es : List Expr} (item : Derives .choice s e m)
      (comma : Blanks m (',' :: m₁)) (others : Items m₁ (e' :: es) t) :
      Items s (e :: e' :: es) t

end

/-- The whole text is an expression, with blanks around it. -/
def Describes (source : String) (e : Expr) : Prop :=
  ∃ t, Derives .choice source.toList e t ∧ Blanks t []

end Rulebook.Condition.Grammar
