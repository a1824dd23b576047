import Rulebook.Engine
import Rulebook.Json.Reader

/-!
# Values and settings as JSON

A value carries no mark of its kind: each kind is told by the shape of its JSON. A numeral without
point and exponent is an integer if it is in range and a float otherwise, and so is negative zero,
which no integer is. Every other numeral is the float nearest to it. A numeral too large for a
finite float is no number.

Values nest up to a limit. Records are objects of their fields, whatever the order, or arrays of
them in order; unknown fields are passed over.
-/
namespace Rulebook.Json

/-- Floats are written with the fewest digits that identify them, without an exponent when the
first digit stands for `10 ^ -5` to `10 ^ 15`, and always with a point or an exponent. -/
def floatLayout : Decimal.Layout := ⟨.toEven, fun e => -5 ≤ e && e ≤ 15, true⟩

/-- A float that is no number or infinite has no numeral; `null` stands for it. -/
def floatChars (x : Float) : List Char :=
  if x.isNaN || x.isInf then ['n', 'u', 'l', 'l'] else floatLayout.chars x

/-- The power of ten that the exponent calls for. -/
def Numeral.power (n : Numeral) : Int :=
  match n.exponent with
  | none => 0
  | some (negative, ds) =>
    if negative then -(Decimal.natOfChars ds : Int) else Decimal.natOfChars ds

/-- The magnitude of a numeral as a float; none if it is out of range. The nearest float is an
assumption about the JSON reader: unless it is asked for exact reading it promises no more than to
come close, and may miss the nearest float of a numeral with many digits by its last bit. -/
def Numeral.magnitude? (n : Numeral) : Option Float :=
  let x := (Decimal.Digits.written n.whole n.fraction n.power).nearest
  if x.isInf then none else some x

/-- The numeral is written as an integer. -/
def Numeral.integral (n : Numeral) : Bool := n.fraction.isEmpty && n.exponent.isNone

/-- The integer that a numeral denotes, if it is written as one, is no negative zero and lies in
the range of integers. -/
def Numeral.toInt? (n : Numeral) : Option Int :=
  let m := Decimal.natOfChars n.whole
  if !n.integral then none
  else if n.negative then (if 0 < m ∧ m ≤ 0x8000000000000000 then some (-(m : Int)) else none)
  else if m < 0x8000000000000000 then some m else none

/-- The fields of an object, each with its key. -/
def objectChars (fields : List (String × List Char)) : List Char :=
  let field (f : String × List Char) := Quoted.encode f.1.toList ++ ':' :: f.2
  '\x7b' :: (List.intercalate [','] (fields.map field) ++ ['\x7d'])

def boolChars : Bool → List Char
  | true => ['t', 'r', 'u', 'e']
  | false => ['f', 'a', 'l', 's', 'e']

mutual

/-- The JSON text of a value. -/
def valueChars : Value → List Char
  | .null => ['n', 'u', 'l', 'l']
  | .bool b => boolChars b
  | .int n => Decimal.intChars n.toInt
  | .float x => floatChars x
  | .string s => Quoted.encode s.toList
  | .list items => '[' :: (itemsChars items ++ [']'])
  | .map entries => '\x7b' :: (entriesChars entries ++ ['\x7d'])

def itemsChars : List Value → List Char
  | [] => []
  | [v] => valueChars v
  | v :: w :: rest => valueChars v ++ ',' :: itemsChars (w :: rest)

def entriesChars : List (String × Value) → List Char
  | [] => []
  | [(k, v)] => Quoted.encode k.toList ++ ':' :: valueChars v
  | (k, v) :: e :: rest =>
    Quoted.encode k.toList ++ ':' :: (valueChars v ++ ',' :: entriesChars (e :: rest))

end

/-- Arrays and objects may nest this deep. -/
def nestingLimit : Nat := 127

/-- The kinds in the order of their declaration. -/
def kinds : List Kind := [.null, .bool, .int, .float, .string, .list, .map]

/-- A field of an object under its key, if it has one, with what its tree is read as. -/
def entryOf? (part : Tree → Option Value) (field : Option String × Tree) :
    Option (String × Value) := do
  let key ← field.1
  let value ← part field.2
  some (key, value)

/-- What a kind makes of a tree, if the tree fits it. A float may be written like an integer. Trees
with parts fit only where parts may be read. -/
def fitted? (part? : Option (Tree → Option Value)) : Kind → Tree → Option Value
  | .null, .null => some .null
  | .bool, .bool b => some (.bool b)
  | .int, .number n => n.toInt?.map fun i => .int (Int64.ofInt i)
  | .float, .number n => n.magnitude?.map fun x => .float (if n.negative then -x else x)
  | .string, .string s => s.map .string
  | .list, .array items => do
    let part ← part?
    let values ← items.mapM part
    some (.list values)
  | .map, .object fields => do
    let part ← part?
    let entries ← fields.mapM (entryOf? part)
    some (.map (Entries.ofList entries))
  | _, _ => none

/-- The value of a tree with at most `depth` further levels of nesting. The kinds are asked in turn,
and the first that the tree fits takes it. -/
def valueOf? : (depth : Nat) → Tree → Option Value
  | 0, tree => kinds.findSome? (fitted? none · tree)
  | depth + 1, tree => kinds.findSome? (fitted? (some (valueOf? depth)) · tree)

def string? : Tree → Option String
  | .string s => s
  | _ => none

def bool? : Tree → Option Bool
  | .bool b => some b
  | _ => none

/-- An integer of 32 bits. -/
def int32? : Tree → Option Int32
  | .number n => do
    let i ← n.toInt?
    if -0x80000000 ≤ i ∧ i < 0x80000000 then some (Int32.ofInt i) else none
  | _ => none

/-- The fields of a record: absent, or once. An object has them under their names, and its other
fields do not matter; an array has the first of them in order and nothing else. -/
def recordOf? (names : List String) : Tree → Option (List (Option Tree))
  | .array items =>
    if items.length ≤ names.length then
      some (items.map some ++ List.replicate (names.length - items.length) none)
    else none
  | .object fields => do
    if fields.any fun f => f.1.isNone then none
    names.mapM fun name =>
      match fields.filter fun f => f.1 = some name with
      | [] => some none
      | [f] => some (some f.2)
      | _ => none
  | _ => none

/-- A field that has to be there. -/
def needed {α : Type} (decode : Tree → Option α) : Option Tree → Option α
  | some t => decode t
  | none => none

/-- A field with a default. -/
def defaulted {α : Type} (decode : Tree → Option α) (value : α) : Option Tree → Option α
  | some t => decode t
  | none => some value

/-- The name of a variant, alone or as the only key of an object over `null`. -/
def variant? : Tree → Option String
  | .string s => s
  | .object [(key, .null)] => key
  | _ => none

/-- Types with a JSON text. -/
class Format (α : Type) where
  chars : α → List Char
  decode? : Tree → Option α

/-- The JSON text of a member of a type. -/
def write {α : Type} [Format α] (a : α) : String := String.ofList (Format.chars a)

/-- The member of a type that a text stands for. -/
def read? {α : Type} [Format α] (text : String) : Option α := Tree.parse? text >>= Format.decode?

instance : Format Value := ⟨valueChars, valueOf? nestingLimit⟩

instance : Format Category where
  chars c := objectChars [
    ("name", Quoted.encode c.name.toList),
    ("description", Quoted.encode c.description.toList),
    ("sequence_number", Decimal.intChars c.sequence.toInt)]
  decode? t := do
    match ← recordOf? ["name", "description", "sequence_number"] t with
    | [name, description, sequence] => do
      let name ← needed string? name
      let description ← needed string? description
      let sequence ← needed int32? sequence
      some { name, description, sequence }
    | _ => none

instance : Format Config where
  chars c := objectChars [
    ("default_priority", Decimal.intChars c.priority.toInt),
    ("default_category", Quoted.encode c.category.toList),
    ("category_priority", Decimal.intChars c.categoryPriority.toInt),
    ("cache_expressions", boolChars c.cacheExpressions)]
  decode? t := do
    let names := ["default_priority", "default_category", "category_priority", "cache_expressions"]
    match ← recordOf? names t with
    | [priority, category, categoryPriority, cacheExpressions] => do
      let priority ← defaulted int32? defaultPriority priority
      let category ← defaulted string? defaultCategory category
      let categoryPriority ← defaulted int32? defaultPriority categoryPriority
      let cacheExpressions ← defaulted bool? false cacheExpressions
      some { priority, category, categoryPriority, cacheExpressions }
    | _ => none

instance : Format GroupOperator where
  chars
    | .all => Quoted.encode ['A', 'n', 'd']
    | .any => Quoted.encode ['O', 'r']
  decode? t := do
    let name ← variant? t
    if name = "And" then some .all else if name = "Or" then some .any else none

instance : Format ResultType where
  chars type := Quoted.encode type.word.toList
  decode? t := do
    let name ← variant? t
    [ResultType.fired, .noMatch, .noRules, .failed].find? fun type => type.word = name

end Rulebook.Json
