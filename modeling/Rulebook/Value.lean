import Rulebook.Decimal
import Rulebook.KeyMap

/-!
# Values

What a fact can hold and a condition can compute. Two comparisons live here: `Value.same` tells
values apart strictly, while `Value.looseEq` lets integers and floating-point numbers meet, as the
operators `==` and `contains` do. Order exists among numbers and among strings only.
-/
namespace Rulebook

/-- The kind of a value, as error messages name it. -/
inductive Kind where
  | null | bool | int | float | string | list | map
deriving DecidableEq, Repr

def Kind.name : Kind → String
  | .null => "null"
  | .bool => "bool"
  | .int => "int"
  | .float => "float"
  | .string => "string"
  | .list => "list"
  | .map => "map"

/-- A dynamically typed value. The entries of a map are in key order wherever a map is made or
written to; the type itself cannot say so. -/
inductive Value where
  | null
  | bool (b : Bool)
  | int (n : Int64)
  | float (x : Float)
  | string (s : String)
  | list (items : List Value)
  | map (entries : List (String × Value))
deriving Inhabited, Repr

namespace Value

mutual

/-- Whether two values are one and the same, floats with all their bits. -/
def identical : Value → Value → Bool
  | null, null => true
  | bool a, bool b => a = b
  | int a, int b => a = b
  | float a, float b => a = b
  | string a, string b => a = b
  | list xs, list ys => identicalItems xs ys
  | map xs, map ys => identicalEntries xs ys
  | _, _ => false

def identicalItems : List Value → List Value → Bool
  | [], [] => true
  | x :: xs, y :: ys => identical x y && identicalItems xs ys
  | _, _ => false

def identicalEntries : List (String × Value) → List (String × Value) → Bool
  | [], [] => true
  | (k, x) :: xs, (l, y) :: ys => k = l && identical x y && identicalEntries xs ys
  | _, _ => false

end

mutual

theorem identical_iff : ∀ v w : Value, identical v w ↔ v = w
  | null, w => by cases w <;> simp [identical]
  | bool a, w => by cases w <;> simp [identical]
  | int a, w => by cases w <;> simp [identical]
  | float a, w => by cases w <;> simp [identical]
  | string a, w => by cases w <;> simp [identical]
  | list xs, w => by cases w <;> simp [identical, identicalItems_iff xs]
  | map xs, w => by cases w <;> simp [identical, identicalEntries_iff xs]

theorem identicalItems_iff : ∀ xs ys : List Value, identicalItems xs ys ↔ xs = ys
  | [], ys => by cases ys <;> simp [identicalItems]
  | x :: xs, ys => by
    cases ys <;> simp [identicalItems, identical_iff x, identicalItems_iff xs]

theorem identicalEntries_iff : ∀ xs ys : List (String × Value), identicalEntries xs ys ↔ xs = ys
  | [], ys => by cases ys <;> simp [identicalEntries]
  | (k, x) :: xs, [] => by simp [identicalEntries]
  | (k, x) :: xs, (l, y) :: ys => by
    simp [identicalEntries, identical_iff x, identicalEntries_iff xs]

end

instance : DecidableEq Value := fun v w => decidable_of_iff _ (identical_iff v w)

def kind : Value → Kind
  | null => .null
  | bool _ => .bool
  | int _ => .int
  | float _ => .float
  | string _ => .string
  | list _ => .list
  | map _ => .map

def asBool? : Value → Option Bool
  | bool b => some b
  | _ => none

def asString? : Value → Option String
  | string s => some s
  | _ => none

def isNull : Value → Bool
  | null => true
  | _ => false

/-- Numbers as floating-point values; an integer is rounded to nearest. -/
def asFloat? : Value → Option Float
  | int n => some (Float.ofInt n.toInt)
  | float x => some x
  | _ => none

mutual

/-- Strict equality: same kind, same content. Floats compare as numbers, so a value that is not a
number differs from itself. -/
def same : Value → Value → Bool
  | null, null => true
  | bool a, bool b => a == b
  | int a, int b => a == b
  | float a, float b => a == b
  | string a, string b => a == b
  | list xs, list ys => sameItems xs ys
  | map xs, map ys => sameEntries xs ys
  | _, _ => false

def sameItems : List Value → List Value → Bool
  | [], [] => true
  | x :: xs, y :: ys => same x y && sameItems xs ys
  | _, _ => false

def sameEntries : List (String × Value) → List (String × Value) → Bool
  | [], [] => true
  | (k, x) :: xs, (l, y) :: ys => k == l && same x y && sameEntries xs ys
  | _, _ => false

end

/-- How two values stand to each other: integers exactly, numbers of both kinds as floating-point
values, strings by their characters. Other pairs have no order. -/
def order : Value → Value → Option Ordering
  | int a, int b => some (compare a.toInt b.toInt)
  | float a, float b => Binary64.order a b
  | int a, float b => Binary64.order (Float.ofInt a.toInt) b
  | float a, int b => Binary64.order a (Float.ofInt b.toInt)
  | string a, string b => some (if a < b then .lt else if a = b then .eq else .gt)
  | _, _ => none

mutual

/-- Loose equality: numbers are equal if neither comes before the other, lists and maps if their
parts are, everything else if it is the same. -/
def looseEq : Value → Value → Bool
  | null, null => true
  | bool a, bool b => a == b
  | string a, string b => a == b
  | list xs, list ys => looseEqItems xs ys
  | map xs, map ys => looseEqEntries xs ys
  | a, b => order a b == some .eq

def looseEqItems : List Value → List Value → Bool
  | [], [] => true
  | x :: xs, y :: ys => looseEq x y && looseEqItems xs ys
  | _, _ => false

def looseEqEntries : List (String × Value) → List (String × Value) → Bool
  | [], [] => true
  | (k, x) :: xs, (l, y) :: ys => k == l && looseEq x y && looseEqEntries xs ys
  | _, _ => false

end

/-- Numbers are written with the fewest digits that identify them, always positionally and without
a point when integral; a number halfway between two such decimals takes the upper one. -/
def floatLayout : Decimal.Layout := ⟨.up, fun _ => true, false⟩

/-- The text of a float, finite or not. -/
def floatChars (x : Float) : List Char :=
  if x.isNaN then ['N', 'a', 'N']
  else if x.isInf then (if x < 0 then ['-', 'i', 'n', 'f'] else ['i', 'n', 'f'])
  else floatLayout.chars x

mutual

/-- The text of a value. Strings stand between single quotes as they are, lists and maps between
braces. -/
def chars : Value → List Char
  | null => ['n', 'u', 'l', 'l']
  | bool true => ['t', 'r', 'u', 'e']
  | bool false => ['f', 'a', 'l', 's', 'e']
  | int n => Decimal.intChars n.toInt
  | float x => floatChars x
  | string s => '\x27' :: (s.toList ++ ['\x27'])
  | list items => '\x7b' :: (itemsChars items ++ ['\x7d'])
  | map entries => '\x7b' :: (entriesChars entries ++ ['\x7d'])

def itemsChars : List Value → List Char
  | [] => []
  | [x] => chars x
  | x :: y :: rest => chars x ++ [',', ' '] ++ itemsChars (y :: rest)

def entriesChars : List (String × Value) → List Char
  | [] => []
  | [(k, x)] => k.toList ++ [':', ' '] ++ chars x
  | (k, x) :: y :: rest =>
    k.toList ++ [':', ' '] ++ chars x ++ [',', ' '] ++ entriesChars (y :: rest)

end

/-- The text of a value as a string. -/
def text (v : Value) : String := String.ofList v.chars

end Value

/-- Types whose members stand for values. -/
class ToValue (α : Type) where
  toValue : α → Value

export ToValue (toValue)

instance : ToValue Value := ⟨id⟩
instance : ToValue Bool := ⟨.bool⟩
instance : ToValue Int64 := ⟨.int⟩
instance : ToValue Int32 := ⟨fun n => .int n.toInt64⟩
instance : ToValue UInt32 := ⟨fun n => .int (Int64.ofNat n.toNat)⟩
instance : ToValue Float := ⟨.float⟩
instance : ToValue String := ⟨.string⟩

/-- An absent value is `null`. -/
instance {α : Type} [ToValue α] : ToValue (Option α) := ⟨fun o => o.elim .null toValue⟩

instance {α : Type} [ToValue α] : ToValue (List α) := ⟨fun xs => .list (xs.map toValue)⟩

/-- The map with the given entries; of a repeated key the last one counts. -/
def Value.ofPairs {α : Type} [ToValue α] (pairs : List (String × α)) : Value :=
  .map (Entries.ofList (pairs.map fun (k, v) => (k, toValue v)))

end Rulebook
