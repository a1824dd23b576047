import Rulebook.Value

/-!
# Conditions as trees

The tree of a condition and its text. In the text every binary operation stands between
parentheses and every variable is marked with `#`, so the operators need no precedence.
-/
namespace Rulebook.Condition

/-- Operators that evaluate both operands. -/
inductive BinaryOp where
  | eq | ne | gt | ge | lt | le | add | sub | mul | div | rem
deriving DecidableEq, Repr

def BinaryOp.symbol : BinaryOp → String
  | .eq => "=="
  | .ne => "!="
  | .gt => ">"
  | .ge => ">="
  | .lt => "<"
  | .le => "<="
  | .add => "+"
  | .sub => "-"
  | .mul => "*"
  | .div => "/"
  | .rem => "%"

inductive UnaryOp where
  | not | neg
deriving DecidableEq, Repr

def UnaryOp.symbol : UnaryOp → String
  | .not => "!"
  | .neg => "-"

/-- The tree of a condition. -/
inductive Expr where
  | literal (v : Value)
  | var (name : String)
  | list (items : List Expr)
  | field (target : Expr) (name : String)
  | index (target position : Expr)
  | call (target : Expr) (method : String) (args : List Expr)
  | unary (op : UnaryOp) (operand : Expr)
  | binary (op : BinaryOp) (left right : Expr)
  | and (left right : Expr)
  | or (left right : Expr)
  | ternary (condition thenBranch elseBranch : Expr)
deriving Inhabited, Repr

namespace Expr

mutual

/-- Whether two trees are one and the same. -/
def identical : Expr → Expr → Bool
  | literal v, literal w => v = w
  | var n, var m => n = m
  | list as, list bs => identicalAll as bs
  | field a n, field b m => identical a b && n = m
  | index a i, index b j => identical a b && identical i j
  | call a n as, call b m bs => identical a b && n = m && identicalAll as bs
  | unary o a, unary p b => o = p && identical a b
  | binary o a i, binary p b j => o = p && identical a b && identical i j
  | and a i, and b j => identical a b && identical i j
  | or a i, or b j => identical a b && identical i j
  | ternary c a i, ternary d b j => identical c d && identical a b && identical i j
  | _, _ => false

def identicalAll : List Expr → List Expr → Bool
  | [], [] => true
  | a :: as, b :: bs => identical a b && identicalAll as bs
  | _, _ => false

end

mutual

theorem identical_iff : ∀ a b : Expr, identical a b ↔ a = b
  | literal v, b => by cases b <;> simp [identical]
  | var n, b => by cases b <;> simp [identical]
  | list as, b => by cases b <;> simp [identical, identicalAll_iff as]
  | field a n, b => by cases b <;> simp [identical, identical_iff a]
  | index a i, b => by cases b <;> simp [identical, identical_iff a, identical_iff i]
  | call a n as, b => by
    cases b <;> simp [identical, identical_iff a, identicalAll_iff as, and_assoc]
  | unary o a, b => by cases b <;> simp [identical, identical_iff a]
  | binary o a i, b => by
    cases b <;> simp [identical, identical_iff a, identical_iff i, and_assoc]
  | and a i, b => by cases b <;> simp [identical, identical_iff a, identical_iff i]
  | or a i, b => by cases b <;> simp [identical, identical_iff a, identical_iff i]
  | ternary c a i, b => by
    cases b <;> simp [identical, identical_iff c, identical_iff a, identical_iff i, and_assoc]

theorem identicalAll_iff : ∀ as bs : List Expr, identicalAll as bs ↔ as = bs
  | [], bs => by cases bs <;> simp [identicalAll]
  | a :: as, bs => by cases bs <;> simp [identicalAll, identical_iff a, identicalAll_iff as]

end

instance : DecidableEq Expr := fun a b => decidable_of_iff _ (identical_iff a b)

/-- An operation between parentheses. -/
def enclosed (left : List Char) (symbol : String) (right : List Char) : List Char :=
  '(' :: (left ++ ' ' :: (symbol.toList ++ ' ' :: (right ++ [')'])))

mutual

/-- The text of a tree. -/
def chars : Expr → List Char
  | literal v => v.chars
  | var name => '#' :: name.toList
  | list items => '\x7b' :: (listChars items ++ ['\x7d'])
  | field target name => target.chars ++ '.' :: name.toList
  | index target position => target.chars ++ '[' :: (position.chars ++ [']'])
  | call target method args =>
    target.chars ++ '.' :: (method.toList ++ '(' :: (listChars args ++ [')']))
  | unary op operand => op.symbol.toList ++ operand.chars
  | binary op left right => enclosed left.chars op.symbol right.chars
  | and left right => enclosed left.chars "and" right.chars
  | or left right => enclosed left.chars "or" right.chars
  | ternary condition thenBranch elseBranch =>
    '(' :: (condition.chars ++ [' ', '?', ' '] ++ thenBranch.chars ++ [' ', ':', ' '] ++
      elseBranch.chars ++ [')'])

def listChars : List Expr → List Char
  | [] => []
  | [e] => e.chars
  | e :: f :: rest => e.chars ++ [',', ' '] ++ listChars (f :: rest)

end

/-- The text of a tree as a string. -/
def text (e : Expr) : String := String.ofList e.chars

end Expr

end Rulebook.Condition
