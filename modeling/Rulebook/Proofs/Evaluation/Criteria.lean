import Rulebook.Proofs.Evaluation.Connectives
import Rulebook.Proofs.Evaluation.Paths
import Rulebook.Proofs.Grammar.Printing
import Rulebook.Rule

/-!
# Criteria

A criterion compares paths of the facts with numbers, strings and booleans, and combines such
comparisons. It has a truth value of its own, computed from the facts without any condition. Written
as a condition it evaluates to that truth value, however deep it is, as long as every path leads to
a value of the kind it is compared with.
-/
namespace Rulebook

open Condition Condition.Grammar Text Text.Parser

/-- How a number stands to another one. -/
inductive Relation where
  | eq | ne | gt | ge | lt | le
deriving DecidableEq, Repr

def Relation.holds (a b : Int) : Relation → Bool
  | .eq => a = b
  | .ne => a ≠ b
  | .gt => a > b
  | .ge => a ≥ b
  | .lt => a < b
  | .le => a ≤ b

def Relation.op : Relation → BinaryOp
  | .eq => .eq
  | .ne => .ne
  | .gt => .gt
  | .ge => .ge
  | .lt => .lt
  | .le => .le

/-- A number that has a literal. -/
structure Bound where
  value : Int64
  nonneg : 0 ≤ value.toInt

/-- A text that stands for itself between quotes of both kinds. -/
structure PlainText where
  value : String
  plain : ∀ c ∈ value.toList, c ≠ '\x27' ∧ c ≠ '\x22' ∧ c ≠ '\\'

inductive Quote where
  | single | double
deriving DecidableEq, Repr

def Quote.char : Quote → Char
  | .single => '\x27'
  | .double => '\x22'

/-- A comparison with a string or a boolean asks whether both are equal, or whether they are not. -/
def equalityOp (equal : Bool) : BinaryOp := if equal then .eq else .ne

inductive Criterion where
  | number (path : DottedPath) (relation : Relation) (bound : Bound)
  | string (path : DottedPath) (equal : Bool) (quote : Quote) (s : PlainText)
  | flag (path : DottedPath) (equal : Bool) (b : Bool)
  | both (left right : Criterion)
  | either (left right : Criterion)
  | not (operand : Criterion)

/-- What stands for itself between double quotes. -/
theorem Condition.Grammar.doubleQuotedText_of_plain {cs : List Char}
    (h : ∀ c ∈ cs, c ≠ '\x22' ∧ c ≠ '\\') : DoubleQuotedText cs cs := by
  induction cs with
  | nil => exact .nil
  | cons c cs ih =>
    obtain ⟨hq, hb⟩ := h c (by simp)
    exact .plain hq hb (ih fun d hd => h d (by simp [hd]))

namespace Criterion

/-- Whether the facts meet the criterion. A path without a value of the right kind meets nothing. -/
def holds (facts : Facts) : Criterion → Bool
  | number path relation bound =>
    match facts.getPath? path.dotted with
    | some (.int n) => relation.holds n.toInt bound.value.toInt
    | _ => false
  | string path equal _ s =>
    match facts.getPath? path.dotted with
    | some (.string s') => (s' == s.value) == equal
    | _ => false
  | flag path equal b =>
    match facts.getPath? path.dotted with
    | some (.bool b') => (b' == b) == equal
    | _ => false
  | both left right => left.holds facts && right.holds facts
  | either left right => left.holds facts || right.holds facts
  | not operand => !operand.holds facts

/-- Every path leads to a value of the kind that it is compared with. -/
def Fits (facts : Facts) : Criterion → Prop
  | number path _ _ => ∃ n, facts.getPath? path.dotted = some (.int n)
  | string path _ _ _ => ∃ s, facts.getPath? path.dotted = some (.string s)
  | flag path _ _ => ∃ b, facts.getPath? path.dotted = some (.bool b)
  | both left right | either left right => left.Fits facts ∧ right.Fits facts
  | not operand => operand.Fits facts

def inParentheses (cs : List Char) : List Char := '(' :: (cs ++ [')'])

/-- Two conditions in parentheses with a word between them. -/
def pairChars (left : List Char) (word : String) (right : List Char) : List Char :=
  inParentheses left ++ ' ' :: (word.toList ++ ' ' :: inParentheses right)

/-- A path, an operator and a literal, with blanks between them. -/
def comparisonChars (path : DottedPath) (op : BinaryOp) (literal : List Char) : List Char :=
  path.chars ++ ' ' :: (op.symbol.toList ++ ' ' :: literal)

def chars : Criterion → List Char
  | number path relation bound => comparisonChars path relation.op (Value.int bound.value).chars
  | string path equal quote s =>
    comparisonChars path (equalityOp equal) (quote.char :: (s.value.toList ++ [quote.char]))
  | flag path equal b => comparisonChars path (equalityOp equal) (Value.bool b).chars
  | both left right => pairChars left.chars "and" right.chars
  | either left right => pairChars left.chars "||" right.chars
  | not operand => '!' :: inParentheses operand.chars

/-- The criterion written as a condition. -/
def text (c : Criterion) : String := String.ofList c.chars

/-- The tree that the written criterion is read as. -/
def expr : Criterion → Expr
  | number path relation bound => .binary relation.op path.expr (.literal (.int bound.value))
  | string path equal _ s => .binary (equalityOp equal) path.expr (.literal (.string s.value))
  | flag path equal b => .binary (equalityOp equal) path.expr (.literal (.bool b))
  | both left right => .and left.expr right.expr
  | either left right => .or left.expr right.expr
  | not operand => .unary .not operand.expr

section Reading

variable {t : List Char}

theorem derives_inParentheses {cs : List Char} {e : Expr}
    (inside : Derives .choice (cs ++ ')' :: t) e (')' :: t)) :
    Derives .primary (inParentheses cs ++ t) e t := by
  have enclosed := Derives.enclosed (Blanks.refl _) inside (Blanks.refl _)
  simpa [inParentheses] using enclosed

theorem derives_pair {l l' : Level} {left right : List Char} {word : String} {a b : Expr}
    {join : Expr → Expr → Expr} (below : l.tighter = some l')
    (op : ∀ u, Joins l (word.toList ++ ' ' :: u) join (' ' :: u))
    (first : ∀ u, Derives .primary (inParentheses left ++ u) a u)
    (second : Derives .primary (inParentheses right ++ t) b t) :
    Derives .choice (pairChars left word right ++ t) (join a b) t := by
  have front := (first (' ' :: (word.toList ++ ' ' :: (inParentheses right ++ t)))).loosen
    l.rank_le_primary
  have behind := (second.loosen l'.rank_le_primary).behind (blanks_space _)
  have joined := Derives.joined below front (blanks_space _) (op _) behind rfl
  simpa [pairChars] using joined.loosen (Nat.zero_le _)

/-- A comparison with a literal is a phrase for its operator. -/
theorem derives_comparison (path : DottedPath) {op : BinaryOp} {literal : List Char} {v : Value}
    (mem : op ∈ Level.symbols .equality ∨ op ∈ comparisons)
    (text : LiteralText (literal ++ t) v t) :
    Derives .choice (comparisonChars path op literal ++ t)
      (.binary op path.expr (.literal v)) t := by
  have front : Derives .accessed (path.chars ++ ' ' :: (op.symbol.toList ++ ' ' :: (literal ++ t)))
      path.expr _ := path.derives (endsBefore_cons.mpr (by decide))
  have behind : Derives .primary (' ' :: (literal ++ t)) (.literal v) t :=
    .literal (blanks_space _) text
  have whole : Derives .equality (path.chars ++ ' ' :: (op.symbol.toList ++ ' ' :: (literal ++ t)))
      (.binary op path.expr (.literal v)) t := by
    rcases mem with mem | mem
    · exact .joined rfl (front.loosen (by decide)) (blanks_space _) (.symbol mem)
        (behind.loosen (by decide)) rfl
    · exact .tighter rfl
        (.comparison (front.loosen (by decide)) mem (blanks_space _) (behind.loosen (by decide)))
  simpa [comparisonChars] using whole.loosen (l := .choice) (Nat.zero_le _)

theorem symbol_mem (relation : Relation) :
    relation.op ∈ Level.symbols .equality ∨ relation.op ∈ comparisons := by
  cases relation <;> decide

theorem equalityOp_mem (equal : Bool) : equalityOp equal ∈ Level.symbols .equality := by
  cases equal <;> decide

theorem literalText_plain (quote : Quote) (s : PlainText) (ht : Separates t) :
    LiteralText (quote.char :: (s.value.toList ++ [quote.char]) ++ t) (.string s.value) t := by
  cases quote with
  | single =>
    have printable : PrintableValue (.string s.value) := fun hmem => (s.plain _ hmem).1 rfl
    exact literalText_chars printable ht
  | double =>
    have inside : DoubleQuotedText s.value.toList s.value.toList :=
      doubleQuotedText_of_plain fun c hc => (s.plain c hc).2
    have text := LiteralText.doubleQuoted (t := t) inside
    rw [String.ofList_toList] at text
    simpa [Quote.char] using text

/-- A written criterion is a phrase in front of any separated text. -/
theorem derives (c : Criterion) (ht : Separates t) : Derives .choice (c.chars ++ t) c.expr t := by
  have closing {u : List Char} : Separates (')' :: u) := separates_cons rfl
  induction c generalizing t with
  | number path relation bound =>
    exact derives_comparison path (symbol_mem relation)
      (literalText_chars (v := .int bound.value) bound.nonneg ht)
  | string path equal quote s =>
    exact derives_comparison path (.inl (equalityOp_mem equal)) (literalText_plain quote s ht)
  | flag path equal b =>
    exact derives_comparison path (.inl (equalityOp_mem equal))
      (literalText_chars (v := .bool b) trivial ht)
  | both left right hleft hright =>
    have op (u : List Char) : Joins .conjunction ("and".toList ++ ' ' :: u) .and (' ' :: u) :=
      .and ⟨rfl, endsBefore_cons.mpr (by decide)⟩
    exact derives_pair rfl op (fun u => derives_inParentheses (hleft closing))
      (derives_inParentheses (hright closing))
  | either left right hleft hright =>
    exact derives_pair rfl (fun _ => .bars) (fun u => derives_inParentheses (hleft closing))
      (derives_inParentheses (hright closing))
  | not operand hoperand =>
    have inside : Derives .primary _ operand.expr t :=
      derives_inParentheses (hoperand closing)
    exact (Derives.signed (Blanks.refl _) .bang (inside.loosen (by decide))).loosen (by decide)

theorem parse_criterion (c : Criterion) : parse c.text = .ok c.expr := by
  refine parse_of_describes ⟨[], ?_, Blanks.refl _⟩
  simpa [text] using c.derives separates_nil

end Reading

section Evaluation

variable {facts : Facts}

theorem eval_comparison {path : DottedPath} {v w : Value}
    (found : facts.getPath? path.dotted = some v) (op : BinaryOp) :
    (Expr.binary op path.expr (.literal w)).eval facts = op.apply v w := by
  have hpath : path.expr.eval facts = .ok v := ((path.finds_eval facts).ok_iff v).mpr found
  rw [Expr.eval, hpath]
  rfl

theorem apply_relation (relation : Relation) (n m : Int64) :
    relation.op.apply (.int n) (.int m) = .ok (.bool (relation.holds n.toInt m.toInt)) := by
  have horder : (Value.int n).order (.int m) = some (compare n.toInt m.toInt) := rfl
  have hloose : (Value.int n).looseEq (.int m) = (compare n.toInt m.toInt == .eq) := by
    simp [Value.looseEq, horder]
  cases relation <;> simp only [Relation.op, BinaryOp.apply, OrderOp.apply, horder, hloose]
  all_goals
    congr 2
    rw [Bool.eq_iff_iff]
    simp [Relation.holds, OrderOp.holds, compare_lt_iff_lt, compare_gt_iff_gt]

theorem apply_equalityOp (equal : Bool) (v w : Value) :
    (equalityOp equal).apply v w = .ok (.bool (v.looseEq w == equal)) := by
  cases equal <;> simp [equalityOp, BinaryOp.apply]

/-- The tree of a criterion has the truth value of the criterion. -/
theorem eval_expr {c : Criterion} (fits : c.Fits facts) :
    c.expr.eval facts = .ok (.bool (c.holds facts)) := by
  induction c with
  | number path relation bound =>
    obtain ⟨n, found⟩ := fits
    rw [expr, eval_comparison found, apply_relation, holds, found]
  | string path equal quote s =>
    obtain ⟨s', found⟩ := fits
    rw [expr, eval_comparison found, apply_equalityOp, holds, found, Value.looseEq]
  | flag path equal b =>
    obtain ⟨b', found⟩ := fits
    rw [expr, eval_comparison found, apply_equalityOp, holds, found, Value.looseEq]
  | both left right hleft hright => exact Expr.eval_and_bool (hleft fits.1) (hright fits.2)
  | either left right hleft hright => exact Expr.eval_or_bool (hleft fits.1) (hright fits.2)
  | not operand hoperand => exact Expr.eval_not_bool (hoperand fits)

/-- A criterion written as a condition fires exactly if the facts meet the criterion, and evaluating
it never fails, provided that every path leads to a value of the kind it is compared with. -/
theorem condition_text {σ : Type} {c : Criterion} (fits : c.Fits facts) (memory : σ) :
    (Evaluator.plain.condition c.text facts memory).1 = .ok (c.holds facts) := by
  have hevaluate : Condition.evaluate c.text facts = .ok (.bool (c.holds facts)) := by
    rw [Condition.evaluate, parse_criterion]
    exact eval_expr fits
  simp [Evaluator.condition, Evaluator.plain, hevaluate, firesOn, Value.asBool?]

/-- Of age, and not from the north or a gold customer. -/
theorem condition_text_nested :
    let age : DottedPath := ⟨true, "user", ["age"], by decide, by decide⟩
    let status : DottedPath := ⟨false, "user", ["status"], by decide, by decide⟩
    let region : DottedPath := ⟨false, "region", [], by decide, by decide⟩
    let c : Criterion := both (number age .ge ⟨18, by decide⟩)
      (either (not (string region true .double ⟨"north", by simp⟩))
        (string status true .single ⟨"gold", by simp⟩))
    let facts := Facts.ofList [("user.age", .int 21), ("user.status", .string "gold"),
      ("region", .string "north")]
    c.text = "(#user.age >= 18) and ((!(region == \x22north\x22)) || (user.status == 'gold'))" ∧
      c.Fits facts ∧ (Evaluator.plain.condition c.text facts ()).1 = .ok true := by
  intro age status region c facts
  have fits : c.Fits facts :=
    ⟨⟨21, by decide +kernel⟩, ⟨"north", by decide +kernel⟩, "gold", by decide +kernel⟩
  refine ⟨by decide +kernel, fits, ?_⟩
  rw [condition_text fits]
  exact congrArg Except.ok (by decide +kernel)

end Evaluation

end Criterion

end Rulebook
