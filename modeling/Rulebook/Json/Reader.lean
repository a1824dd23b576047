import Rulebook.Text.Parser

/-!
# Reading JSON

The tree of a JSON text before it is given a meaning, and the grammar that reads it. Numerals keep
their digits, and a string whose escapes are no text has none, because both matter only where the
value is used. As in the condition language, a nested value stands behind at least one character of
the value around it.

Between the quotes of a string stand characters and escapes. Written strings escape the quote, the
backslash and the control characters. Read strings may escape anything by code units, and a pair of
surrogates is one character.
-/
namespace Rulebook.Json

open Text

/-- A numeral by its parts. -/
structure Numeral where
  negative : Bool
  whole : List Char
  /-- the digits behind the point; without a point there are none -/
  fraction : List Char
  /-- whether the exponent is negative, and its digits -/
  exponent : Option (Bool × List Char)
deriving DecidableEq, Repr

inductive Tree where
  | null
  | bool (b : Bool)
  | number (n : Numeral)
  | string (s : Option String)
  | array (items : List Tree)
  | object (fields : List (Option String × Tree))
deriving Repr, Inhabited

namespace Quoted

/-- The digits of a code unit escape, lower case. -/
def hexDigits (n : Nat) : List Char :=
  let digits := Nat.toDigits 16 n
  List.replicate (4 - digits.length) '0' ++ digits

/-- A character as it is written. -/
def encodeChar (c : Char) : List Char :=
  if c = '\x22' then ['\\', '\x22']
  else if c = '\\' then ['\\', '\\']
  else if c = '\x08' then ['\\', 'b']
  else if c = '\t' then ['\\', 't']
  else if c = '\n' then ['\\', 'n']
  else if c = '\x0c' then ['\\', 'f']
  else if c = '\r' then ['\\', 'r']
  else if c < ' ' then '\\' :: 'u' :: hexDigits c.toNat
  else [c]

/-- A text between quotes. -/
def encode (cs : List Char) : List Char := '\x22' :: (cs.flatMap encodeChar ++ ['\x22'])

/-- A character of a string, or one code unit of it. -/
inductive Piece where
  | char (c : Char)
  | unit (n : Nat)
deriving DecidableEq, Repr

def hexValue? (c : Char) : Option Nat :=
  if '0' ≤ c ∧ c ≤ '9' then some (c.toNat - 48)
  else if 'a' ≤ c ∧ c ≤ 'f' then some (c.toNat - 87)
  else if 'A' ≤ c ∧ c ≤ 'F' then some (c.toNat - 55)
  else none

/-- The code unit that four hexadecimal digits denote. -/
def codeUnit? (a b c d : Char) : Option Nat := do
  let w ← hexValue? a
  let x ← hexValue? b
  let y ← hexValue? c
  let z ← hexValue? d
  some (((w * 16 + x) * 16 + y) * 16 + z)

/-- What a one-letter escape stands for. -/
def escaped? (c : Char) : Option Char :=
  if c = '\x22' ∨ c = '\\' ∨ c = '/' then some c
  else if c = 'b' then some '\x08'
  else if c = 'f' then some '\x0c'
  else if c = 'n' then some '\n'
  else if c = 'r' then some '\r'
  else if c = 't' then some '\t'
  else none

/-- One piece in front of what is scanned after it. -/
def withPiece (piece : Option Piece) (scanned : Option (List Piece × List Char)) :
    Option (List Piece × List Char) := do
  let p ← piece
  let (pieces, rest) ← scanned
  some (p :: pieces, rest)

/-- The pieces up to the closing quote and what follows it. -/
def scan : List Char → Option (List Piece × List Char)
  | [] => none
  | ['\\'] => none
  | '\\' :: 'u' :: a :: b :: c :: d :: rest => withPiece ((codeUnit? a b c d).map .unit) (scan rest)
  | '\\' :: e :: rest => withPiece ((escaped? e).map .char) (scan rest)
  | c :: rest =>
    if c = '\x22' then some ([], rest)
    else if c < ' ' then none
    else withPiece (some (.char c)) (scan rest)

def isHighSurrogate (n : Nat) : Bool := 0xD800 ≤ n && n ≤ 0xDBFF

def isLowSurrogate (n : Nat) : Bool := 0xDC00 ≤ n && n ≤ 0xDFFF

/-- The text of the pieces, unless a surrogate stands alone. -/
def assemble : List Piece → Option (List Char)
  | [] => some []
  | .char c :: rest => (assemble rest).map (c :: ·)
  | .unit n :: rest =>
    if isHighSurrogate n then
      match rest with
      | .unit m :: rest' =>
        if isLowSurrogate m then
          (assemble rest').map (Char.ofNat (0x10000 + (n - 0xD800) * 0x400 + (m - 0xDC00)) :: ·)
        else none
      | _ => none
    else if isLowSurrogate n then none
    else (assemble rest).map (Char.ofNat n :: ·)

/-- A string between quotes; none if its escapes are no text. -/
def quoted : Parser Empty (Option String) := fun s =>
  match s with
  | c :: rest =>
    if c = '\x22' then
      match scan rest with
      | some (pieces, after) => .done ((assemble pieces).map String.ofList) after
      | none => .failed false s []
    else .failed false s []
  | [] => .failed false s []

end Quoted

open Text.Parser

/-- A parser of JSON; it expects nothing in particular. -/
abbrev Reader (α : Type) : Type := Parser Empty α

namespace Reader

def isBlank (c : Char) : Bool := c = ' ' || c = '\n' || c = '\t' || c = '\r'

def blanks : Reader Unit := do
  let _ ← takeWhile isBlank

/-- A character with blanks before it. -/
def token (c : Char) : Reader Unit := do
  blanks
  char c

/-- Digits without a leading zero, unless zero is all there is. -/
def wholeDigits : Reader (List Char) :=
  accept (takeWhile1 Char.isDigit) fun ds =>
    if ds.head? = some '0' ∧ ds.length ≠ 1 then none else some ds

/-- The digits behind a point, if there is a point. -/
def fractionDigits : Reader (List Char) := do
  match ← optional (char '.') with
  | some () => takeWhile1 Char.isDigit
  | none => succeed []

/-- Whether an exponent is negative. -/
def exponentSign : Reader Bool :=
  orElse (do
    char '+'
    succeed false) <|
  orElse (do
    char '-'
    succeed true) (succeed false)

def exponent : Reader (Option (Bool × List Char)) := do
  match ← optional (orElse (char 'e') (char 'E')) with
  | some () => do
    let negative ← exponentSign
    let ds ← takeWhile1 Char.isDigit
    succeed (some (negative, ds))
  | none => succeed none

def numeral : Reader Numeral := do
  let sign ← optional (char '-')
  let whole ← wholeDigits
  let fraction ← fractionDigits
  let e ← exponent
  succeed ⟨sign.isSome, whole, fraction, e⟩

def word (w : String) (tree : Tree) : Reader Tree := do
  exactly w
  succeed tree

section Levels

variable (nested : Reader Tree)

def array : Reader Tree := do
  char '['
  let items ← sepBy nested (token ',')
  token ']'
  succeed (.array items)

def field : Reader (Option String × Tree) := do
  blanks
  let key ← Quoted.quoted
  token ':'
  let tree ← nested
  succeed (key, tree)

def object : Reader Tree := do
  char '\x7b'
  let fields ← sepBy (field nested) (token ',')
  token '\x7d'
  succeed (.object fields)

/-- One layer of the grammar. -/
def layer : Reader Tree := do
  blanks
  orElse (word "null" .null) <| orElse (word "true" (.bool true)) <|
    orElse (word "false" (.bool false)) <|
    orElse (do
      let s ← Quoted.quoted
      succeed (.string s)) <|
    orElse (do
      let n ← numeral
      succeed (.number n)) <|
    orElse (array nested) (object nested)

end Levels

def value : Reader Tree := fix layer

end Reader

/-- The tree of a text that is one JSON value with blanks around it. -/
def Tree.parse? (text : String) : Option Tree :=
  match Reader.value text.toList with
  | .done tree rest => if rest.all Reader.isBlank then some tree else none
  | .failed _ _ _ => none

end Rulebook.Json
