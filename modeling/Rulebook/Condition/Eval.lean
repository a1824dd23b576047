import Rulebook.Condition.Grammar
import Rulebook.Facts
import Rulebook.Text.LetterCase

/-!
# The value of a condition

Operands are evaluated from the left and the first failure decides. `and`, `or` and a choice
evaluate only the operands they need and accept nothing but booleans.

Integers are computed exactly and then have to fit; a quotient is truncated toward zero, and a
remainder exists only where its quotient fits. As soon as a float takes part both operands are
floats. A sum with a string is a concatenation. Nothing can be asked of `null`.
-/
namespace Rulebook.Condition

/-- What was applied to operands of the wrong kind or left the range of integers. -/
inductive Operation where
  | unary (op : UnaryOp)
  | binary (op : BinaryOp)
  | index
  | method (name : String)
deriving DecidableEq, Repr

def Operation.symbol : Operation → String
  | .unary op => op.symbol
  | .binary op => op.symbol
  | .index => "[]"
  | .method name => name

/-- Where a boolean is asked for. -/
inductive BooleanUse where
  | and | or | choice
deriving DecidableEq, Repr

def BooleanUse.symbol : BooleanUse → String
  | .and => "and"
  | .or => "or"
  | .choice => "?:"

inductive EvalError where
  | parse (e : ParseError)
  | unknownVariable (name : String)
  | unknownProperty (property : String) (kind : Kind)
  | nullReference (member : String)
  | typeMismatch (operation : Operation) (left right : Kind)
  | notBoolean (use : BooleanUse) (found : Kind)
  | invalidOperand (op : UnaryOp) (operand : Kind)
  | divisionByZero
  | overflow (operation : Operation)
  | unknownMethod (method : String) (kind : Kind)
  | arity (method : String) (expected found : Nat)
  | indexOutOfBounds (index : Int64) (length : Nat)
deriving DecidableEq, Repr

def EvalError.message : EvalError → String
  | .parse e => e.message
  | .unknownVariable name => s!"unknown variable '{name}'"
  | .unknownProperty property kind => s!"no property '{property}' on {kind.name}"
  | .nullReference member => s!"cannot access '{member}' on null"
  | .typeMismatch operation left right =>
    s!"operator '{operation.symbol}' cannot be applied to {left.name} and {right.name}"
  | .notBoolean use found => s!"'{use.symbol}' requires a boolean, found {found.name}"
  | .invalidOperand op operand => s!"operator '{op.symbol}' cannot be applied to {operand.name}"
  | .divisionByZero => "division by zero"
  | .overflow operation => s!"integer overflow in '{operation.symbol}'"
  | .unknownMethod method kind => s!"unknown method '{method}' on {kind.name}"
  | .arity method expected found =>
    s!"method '{method}' expects {expected} argument(s), got {found}"
  | .indexOutOfBounds index length => s!"index {index.toInt} out of bounds for length {length}"

/-- An exact integer as a value, if it is in range. -/
def fitting (operation : Operation) (n : Int) : Except EvalError Value :=
  if Int64.minValue.toInt ≤ n ∧ n ≤ Int64.maxValue.toInt then .ok (.int (Int64.ofInt n))
  else .error (.overflow operation)

def UnaryOp.apply : UnaryOp → Value → Except EvalError Value
  | .not, .bool b => .ok (.bool !b)
  | .neg, .int n => fitting (.unary .neg) (-n.toInt)
  | .neg, .float x => .ok (.float (-x))
  | op, v => .error (.invalidOperand op v.kind)

/-- The operators that compute a number. -/
inductive ArithOp where
  | add | sub | mul | div | rem
deriving DecidableEq, Repr

def ArithOp.toBinary : ArithOp → BinaryOp
  | .add => .add
  | .sub => .sub
  | .mul => .mul
  | .div => .div
  | .rem => .rem

def ArithOp.onInts (op : ArithOp) (a b : Int64) : Except EvalError Value :=
  let fit := fitting (.binary op.toBinary)
  match op with
  | .add => fit (a.toInt + b.toInt)
  | .sub => fit (a.toInt - b.toInt)
  | .mul => fit (a.toInt * b.toInt)
  | .div => if b = 0 then .error .divisionByZero else fit (a.toInt.tdiv b.toInt)
  | .rem =>
    if b = 0 then .error .divisionByZero
    else do
      let _ ← fit (a.toInt.tdiv b.toInt)
      fit (a.toInt.tmod b.toInt)

def ArithOp.onFloats (op : ArithOp) (x y : Float) : Except EvalError Value :=
  match op with
  | .add => .ok (.float (x + y))
  | .sub => .ok (.float (x - y))
  | .mul => .ok (.float (x * y))
  | .div => if y == 0 then .error .divisionByZero else .ok (.float (x / y))
  | .rem => if y == 0 then .error .divisionByZero else .ok (.float (Binary64.remainder x y))

/-- How a value reads inside a longer text: strings without their quotes. -/
def joinedText : Value → String
  | .string s => s
  | v => v.text

def ArithOp.apply (op : ArithOp) (left right : Value) : Except EvalError Value :=
  let onNumbers : Except EvalError Value :=
    match left.asFloat?, right.asFloat? with
    | some x, some y => op.onFloats x y
    | _, _ => .error (.typeMismatch (.binary op.toBinary) left.kind right.kind)
  match left, right with
  | .int a, .int b => op.onInts a b
  | .string _, _ | _, .string _ =>
    if op = .add then .ok (.string (joinedText left ++ joinedText right)) else onNumbers
  | _, _ => onNumbers

/-- The operators that compare by order. -/
inductive OrderOp where
  | gt | ge | lt | le
deriving DecidableEq, Repr

def OrderOp.toBinary : OrderOp → BinaryOp
  | .gt => .gt
  | .ge => .ge
  | .lt => .lt
  | .le => .le

def OrderOp.holds : OrderOp → Ordering → Bool
  | .gt, o => o == .gt
  | .ge, o => o != .lt
  | .lt, o => o == .lt
  | .le, o => o != .gt

def OrderOp.apply (op : OrderOp) (left right : Value) : Except EvalError Value :=
  match left.order right with
  | some o => .ok (.bool (op.holds o))
  | none => .error (.typeMismatch (.binary op.toBinary) left.kind right.kind)

def BinaryOp.apply : BinaryOp → Value → Value → Except EvalError Value
  | .eq, a, b => .ok (.bool (a.looseEq b))
  | .ne, a, b => .ok (.bool !(a.looseEq b))
  | .gt, a, b => OrderOp.gt.apply a b
  | .ge, a, b => OrderOp.ge.apply a b
  | .lt, a, b => OrderOp.lt.apply a b
  | .le, a, b => OrderOp.le.apply a b
  | .add, a, b => ArithOp.add.apply a b
  | .sub, a, b => ArithOp.sub.apply a b
  | .mul, a, b => ArithOp.mul.apply a b
  | .div, a, b => ArithOp.div.apply a b
  | .rem, a, b => ArithOp.rem.apply a b

/-- A field of a map. -/
def fieldOf (target : Value) (name : String) : Except EvalError Value :=
  match target with
  | .map entries =>
    match Entries.get? name entries with
    | some v => .ok v
    | none => .error (.unknownProperty name .map)
  | .null => .error (.nullReference name)
  | v => .error (.unknownProperty name v.kind)

/-- Lists are indexed by position, maps by key; a missing key yields `null`. -/
def indexInto (target position : Value) : Except EvalError Value :=
  match target, position with
  | .list items, .int i =>
    if i.toInt < 0 then .error (.indexOutOfBounds i items.length)
    else
      match items[i.toInt.toNat]? with
      | some v => .ok v
      | none => .error (.indexOutOfBounds i items.length)
  | .map entries, .string key => .ok ((Entries.get? key entries).getD .null)
  | .null, p => .error (.nullReference p.text)
  | t, p => .error (.typeMismatch .index t.kind p.kind)

/-- The methods of strings, lists and maps. -/
inductive Method where
  | contains | startsWith | endsWith | size | isEmpty | toUpperCase | toLowerCase
deriving DecidableEq, Repr

/-- The method of a name; the size has two. -/
def Method.ofName? (name : String) : Option Method :=
  if name = "contains" then some .contains
  else if name = "startsWith" then some .startsWith
  else if name = "endsWith" then some .endsWith
  else if name = "size" ∨ name = "length" then some .size
  else if name = "isEmpty" then some .isEmpty
  else if name = "toUpperCase" then some .toUpperCase
  else if name = "toLowerCase" then some .toLowerCase
  else none

/-- The needle occurs in the text, possibly as the empty part of it. -/
def occursIn (needle : List Char) : List Char → Bool
  | [] => needle.isEmpty
  | c :: rest => needle.isPrefixOf (c :: rest) || occursIn needle rest

/-- The result of a method without arguments. -/
def noArguments (name : String) (args : List Value) (result : Value) : Except EvalError Value :=
  match args with
  | [] => .ok result
  | _ => .error (.arity name 0 args.length)

/-- The result of a method with one argument. -/
def oneArgument (name : String) (args : List Value) (result : Value → Except EvalError Value) :
    Except EvalError Value :=
  match args with
  | [arg] => result arg
  | _ => .error (.arity name 1 args.length)

/-- The result of a method with one string argument. -/
def oneString (name : String) (target : Value) (args : List Value) (result : String → Bool) :
    Except EvalError Value :=
  oneArgument name args fun arg =>
    match arg with
    | .string s => .ok (.bool (result s))
    | v => .error (.typeMismatch (.method name) target.kind v.kind)

/-- A length as a value. -/
def sizeValue (n : Nat) : Value := .int (Int64.ofNat n)

def callMethod (target : Value) (name : String) (args : List Value) : Except EvalError Value :=
  if target.isNull then .error (.nullReference name)
  else
    match Method.ofName? name, target with
    | some .contains, .string s =>
      oneString name target args fun needle => occursIn needle.toList s.toList
    | some .contains, .list items =>
      oneArgument name args fun arg => .ok (.bool (items.any fun item => item.looseEq arg))
    | some .contains, .map entries =>
      oneString name target args fun key => (Entries.get? key entries).isSome
    | some .startsWith, .string s =>
      oneString name target args fun start => start.toList.isPrefixOf s.toList
    | some .endsWith, .string s =>
      oneString name target args fun ending => ending.toList.isSuffixOf s.toList
    | some .size, .string s => noArguments name args (sizeValue s.length)
    | some .size, .list items => noArguments name args (sizeValue items.length)
    | some .size, .map entries => noArguments name args (sizeValue entries.length)
    | some .isEmpty, .string s => noArguments name args (.bool s.isEmpty)
    | some .isEmpty, .list items => noArguments name args (.bool items.isEmpty)
    | some .isEmpty, .map entries => noArguments name args (.bool entries.isEmpty)
    | some .toUpperCase, .string s => noArguments name args (.string (Text.LetterCase.toUpper s))
    | some .toLowerCase, .string s => noArguments name args (.string (Text.LetterCase.toLower s))
    | _, v => .error (.unknownMethod name v.kind)

/-- The boolean that a connective asks for. -/
def asBoolean (use : BooleanUse) (v : Value) : Except EvalError Bool :=
  match v.asBool? with
  | some b => .ok b
  | none => .error (.notBoolean use v.kind)

namespace Expr

mutual

/-- The value of a tree over the facts. -/
def eval (facts : Facts) : Expr → Except EvalError Value
  | literal v => .ok v
  | var name =>
    match facts.get? name with
    | some v => .ok v
    | none => .error (.unknownVariable name)
  | list items => do
    let values ← evalAll facts items
    .ok (.list values)
  | field target name => do
    let t ← target.eval facts
    fieldOf t name
  | index target position => do
    let t ← target.eval facts
    let p ← position.eval facts
    indexInto t p
  | call target method args => do
    let t ← target.eval facts
    let values ← evalAll facts args
    callMethod t method values
  | unary op operand => do
    let v ← operand.eval facts
    op.apply v
  | binary op left right => do
    let l ← left.eval facts
    let r ← right.eval facts
    op.apply l r
  | and left right => do
    let l ← left.eval facts
    let holds ← asBoolean .and l
    if holds then do
      let r ← right.eval facts
      let b ← asBoolean .and r
      .ok (.bool b)
    else .ok (.bool false)
  | or left right => do
    let l ← left.eval facts
    let holds ← asBoolean .or l
    if holds then .ok (.bool true)
    else do
      let r ← right.eval facts
      let b ← asBoolean .or r
      .ok (.bool b)
  | ternary condition thenBranch elseBranch => do
    let c ← condition.eval facts
    let holds ← asBoolean .choice c
    if holds then thenBranch.eval facts else elseBranch.eval facts

/-- The values of several trees, in order. -/
def evalAll (facts : Facts) : List Expr → Except EvalError (List Value)
  | [] => .ok []
  | e :: rest => do
    let v ← e.eval facts
    let values ← evalAll facts rest
    .ok (v :: values)

end

end Expr

end Rulebook.Condition
