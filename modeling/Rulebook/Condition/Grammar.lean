import Rulebook.Condition.Expr
import Rulebook.Text.Parser

/-!
# The condition language

From the loosest to the tightest: a choice `c ? a : b`, `or`, `and`, equality, one comparison,
sums, products, signs, and members of a primary. `and` and `&&` are the same, as are `or` and `||`
and `not` and `!`. Levels of binary operators group from the left, comparisons do not chain, and
the branches of a choice are whole expressions.

Every level takes the parser for nested expressions as a parameter. A nested expression stands
behind at least one character of the expression around it, so `expr` is a fixed point by length. A
source is a condition if the grammar reads all of it.

A parse error points into its source. A source of one line is shown whole with a caret below; of a
longer one the line in question is shown with its number, and the column counts characters.
-/
namespace Rulebook.Condition

/-- What would have let the reading go on. -/
inductive Expectation where
  | variableName
  | expression
  | memberName
  | closingQuote (quote : Char)
deriving DecidableEq, Repr

def Expectation.description : Expectation → String
  | .variableName => "variable name"
  | .expression => "expression"
  | .memberName => "property or method name"
  | .closingQuote quote => String.ofList ['\x60', quote, '\x60']

/-- Why a source is no condition: the place, in bytes, where reading stopped and what was expected
there, the innermost expectation first. -/
structure ParseError where
  source : String
  offset : Nat
  expected : List Expectation
deriving DecidableEq, Repr

namespace ParseError

/-- The number of bytes of a text. -/
def byteCount : List Char → Nat
  | [] => 0
  | c :: cs => c.utf8Size + byteCount cs

/-- The characters that start before a byte offset, and the others. -/
def splitAtByte (offset : Nat) : List Char → List Char × List Char
  | [] => ([], [])
  | c :: rest =>
    if offset = 0 then ([], c :: rest)
    else
      let (before, after) := splitAtByte (offset - c.utf8Size) rest
      (c :: before, after)

/-- The place of an error in a source of several lines. -/
structure Place where
  /-- the number of lines before -/
  line : Nat
  /-- the distance from the start of the line -/
  column : Nat
  /-- the line itself -/
  text : List Char

/-- The place in front of `rest`, after `before`. Columns are characters, but in front of a
character of several bytes they are bytes. The end of a source belongs to the line of its last
character, one column further. -/
def Place.of (before rest : List Char) : Place :=
  match rest with
  | [] =>
    let front := before.dropLast
    let start := (front.reverse.takeWhile (· ≠ '\n')).reverse
    let last := match before.getLast? with
      | some c => if c = '\n' then [] else [c]
      | none => []
    ⟨front.count '\n', start.length + 1, start ++ last⟩
  | c :: _ =>
    let start := (before.reverse.takeWhile (· ≠ '\n')).reverse
    let column := if c.utf8Size = 1 then start.length else byteCount start
    ⟨before.count '\n', column, start ++ rest.takeWhile (· ≠ '\n')⟩

def spaces (n : Nat) : List Char := List.replicate n ' '

/-- The line that says what was expected; empty if nothing is known. -/
def expectedChars (e : ParseError) : List Char :=
  if e.expected.isEmpty then []
  else ("expected " ++ String.intercalate ", " (e.expected.map (·.description))).toList

/-- The source, a caret below the place, and what was expected. -/
def bodyChars (e : ParseError) : List Char :=
  let source := e.source.toList
  if '\n' ∈ source then
    let (before, rest) := splitAtByte e.offset source
    let place := Place.of before rest
    let number := (toString (place.line + 1)).toList
    let gutter := spaces number.length
    "parse error at line ".toList ++ number ++ ", column ".toList ++
      (toString (place.column + 1)).toList ++ '\n' :: gutter ++ " |\n".toList ++
      number ++ " | ".toList ++ place.text ++ '\n' :: gutter ++ " | ".toList ++
      spaces place.column ++ "^\n".toList ++ e.expectedChars
  else
    source ++ '\n' :: spaces e.offset ++ "^\n".toList ++ e.expectedChars

def message (e : ParseError) : String := "parse error: " ++ String.ofList e.bodyChars

end ParseError

namespace Grammar

open Text Text.Parser

/-- A parser of the condition language. -/
abbrev Phrase (α : Type) : Type := Parser Expectation α

def isBlank (c : Char) : Bool := c = ' ' || c = '\t' || c = '\n' || c = '\x0c' || c = '\r'

/-- Names are made of the letters and digits of ASCII and underscores. -/
def isNameChar (c : Char) : Bool := c.isAlphanum || c = '_'

def isNameStart (c : Char) : Bool := c.isAlpha || c = '_'

/-- Names that a variable takes only behind a `#`. -/
def reserved : List String := ["true", "false", "null", "and", "or", "not"]

def blanks : Phrase Unit := do
  let _ ← takeWhile isBlank

/-- A letter or underscore, then letters, digits and underscores. -/
def name : Phrase String := do
  let first ← takeWhile1 isNameStart
  let rest ← takeWhile isNameChar
  succeed (String.ofList (first ++ rest))

/-- A word that is not the beginning of a longer name. -/
def keyword (w : String) : Phrase Unit := do
  exactly w
  notBefore isNameChar

/-- A name, marked with `#` or not. Once marked it has to be there, and it may be reserved. -/
def var : Phrase Expr := do
  match ← optional (char '#') with
  | some () => do
    let n ← expecting .variableName (commit name)
    succeed (.var n)
  | none => do
    let n ← accept name fun n => if n ∈ reserved then none else some n
    succeed (.var n)

/-- The text up to a single quote that is not doubled; a doubled one stands for itself. -/
def singleQuotedRest : Phrase (List Char)
  | [] => .failed true [] [.closingQuote '\x27']
  | c :: rest =>
    if c = '\x27' then
      match rest with
      | [] => .done [] []
      | d :: rest' =>
        if d = '\x27' then
          match singleQuotedRest rest' with
          | .done cs after => .done ('\x27' :: cs) after
          | .failed committed after expected => .failed committed after expected
        else .done [] (d :: rest')
    else
      match singleQuotedRest rest with
      | .done cs after => .done (c :: cs) after
      | .failed committed after expected => .failed committed after expected

/-- What a backslash and the character after it stand for. -/
def escaped (c : Char) : List Char :=
  if c = '\x22' then ['\x22']
  else if c = '\\' then ['\\']
  else if c = 'n' then ['\n']
  else if c = 't' then ['\t']
  else ['\\', c]

/-- The text up to a double quote that is not escaped. -/
def doubleQuotedRest : Phrase (List Char)
  | [] => .failed true [] [.closingQuote '\x22']
  | c :: rest =>
    if c = '\x22' then .done [] rest
    else if c = '\\' then
      match rest with
      | [] => .failed true [] []
      | d :: rest' =>
        match doubleQuotedRest rest' with
        | .done cs after => .done (escaped d ++ cs) after
        | .failed committed after expected => .failed committed after expected
    else
      match doubleQuotedRest rest with
      | .done cs after => .done (c :: cs) after
      | .failed committed after expected => .failed committed after expected

def singleQuoted : Phrase Value := do
  char '\x27'
  let cs ← singleQuotedRest
  succeed (.string (String.ofList cs))

def doubleQuoted : Phrase Value := do
  char '\x22'
  let cs ← doubleQuotedRest
  succeed (.string (String.ofList cs))

/-- Digits on both sides of a point, read as the nearest floating-point number. -/
def floatLiteral : Phrase Value := do
  let whole ← takeWhile1 Char.isDigit
  char '.'
  let fraction ← takeWhile1 Char.isDigit
  succeed (.float (Decimal.Digits.written whole fraction 0).nearest)

/-- Digits of a number in range. -/
def intLiteral : Phrase Value :=
  accept (takeWhile1 Char.isDigit) fun ds =>
    let n := Decimal.natOfChars ds
    if n < 0x8000000000000000 then some (.int (Int64.ofNat n)) else none

def wordLiteral (w : String) (v : Value) : Phrase Value := do
  keyword w
  succeed v

def literal : Phrase Value :=
  orElse singleQuoted <| orElse doubleQuoted <| orElse floatLiteral <| orElse intLiteral <|
    orElse (wordLiteral "true" (.bool true)) <| orElse (wordLiteral "false" (.bool false)) <|
      wordLiteral "null" .null

/-- The first symbol that fits. -/
def symbol : List BinaryOp → Phrase BinaryOp
  | [] => fun s => .failed false s []
  | op :: ops =>
    orElse (do
      exactly op.symbol
      succeed op) (symbol ops)

def unaryOp : Phrase UnaryOp :=
  orElse (do
    char '!'
    succeed .not) <|
  orElse (do
    keyword "not"
    succeed .not) <|
  do
    char '-'
    succeed .neg

def andOp : Phrase Unit := orElse (keyword "and") (exactly "&&")

def orOp : Phrase Unit := orElse (keyword "or") (exactly "||")

/-- Operands of one level with operators between them, grouped from the left. An operand has to
follow its operator. -/
def leftGrouped {ω : Type} (op : Phrase ω) (operand : Phrase Expr)
    (join : ω → Expr → Expr → Expr) : Phrase Expr := do
  let first ← operand
  let others ← many do
    blanks
    let o ← op
    let right ← commit operand
    succeed (o, right)
  succeed (others.foldl (fun left (o, right) => join o left right) first)

/-- A blank-led closing character that has to be there. -/
def closing (c : Char) : Phrase Unit := do
  blanks
  commit (char c)

def comma : Phrase Unit := do
  blanks
  char ','

section Levels

variable (nested : Phrase Expr)

def parenthesized : Phrase Expr := do
  char '('
  let e ← nested
  closing ')'
  succeed e

def listLiteral : Phrase Expr := do
  char '\x7b'
  let items ← sepBy nested comma
  closing '\x7d'
  succeed (.list items)

def primary : Phrase Expr := do
  blanks
  expecting .expression <|
    orElse (parenthesized nested) <| orElse (listLiteral nested) <|
      orElse (do
        let v ← literal
        succeed (.literal v)) var

def arguments : Phrase (List Expr) := do
  blanks
  char '('
  let args ← sepBy nested comma
  closing ')'
  succeed args

/-- What follows a target: a field, a method call or an index. -/
inductive Access where
  | field (name : String)
  | call (method : String) (args : List Expr)
  | index (position : Expr)

def Access.apply (target : Expr) : Access → Expr
  | .field n => .field target n
  | .call method args => .call target method args
  | .index position => .index target position

/-- A point directly followed by a name, and perhaps arguments. -/
def member : Phrase Access := do
  char '.'
  let n ← expecting .memberName (commit name)
  match ← optional (arguments nested) with
  | some args => succeed (.call n args)
  | none => succeed (.field n)

def index : Phrase Access := do
  char '['
  let position ← commit nested
  closing ']'
  succeed (.index position)

def access : Phrase Access := do
  blanks
  orElse (member nested) (index nested)

def accessed : Phrase Expr := do
  let target ← primary nested
  let steps ← many (access nested)
  succeed (steps.foldl Access.apply target)

/-- Signs, then an operand that has to be there if any sign was. -/
def signed : Phrase Expr := do
  let ops ← many do
    blanks
    unaryOp
  let e ← if ops.isEmpty then accessed nested else commit (accessed nested)
  succeed (ops.foldr .unary e)

def product : Phrase Expr := leftGrouped (symbol [.mul, .div, .rem]) (signed nested) .binary

def sum : Phrase Expr := leftGrouped (symbol [.add, .sub]) (product nested) .binary

/-- At most one comparison. -/
def comparison : Phrase Expr := do
  let left ← sum nested
  let other ← optional do
    blanks
    let op ← symbol [.ge, .gt, .le, .lt]
    let right ← commit (sum nested)
    succeed (op, right)
  match other with
  | some (op, right) => succeed (.binary op left right)
  | none => succeed left

def equality : Phrase Expr := leftGrouped (symbol [.eq, .ne]) (comparison nested) .binary

def conjunction : Phrase Expr := leftGrouped andOp (equality nested) fun _ => .and

def disjunction : Phrase Expr := leftGrouped orOp (conjunction nested) fun _ => .or

def branches : Phrase (Expr × Expr) := do
  let thenBranch ← nested
  blanks
  char ':'
  let elseBranch ← nested
  succeed (thenBranch, elseBranch)

def choice : Phrase Expr := do
  let condition ← disjunction nested
  let chosen ← optional do
    blanks
    char '?'
    commit (branches nested)
  match chosen with
  | some (thenBranch, elseBranch) => succeed (.ternary condition thenBranch elseBranch)
  | none => succeed condition

/-- One layer of the grammar. -/
def layer : Phrase Expr := do
  blanks
  choice nested

end Levels

def expr : Phrase Expr := fix layer

/-- An expression with blanks around it. -/
def condition : Phrase Expr := do
  let e ← expr
  blanks
  succeed e

end Grammar

/-- The tree of a source, or where and why reading stopped. -/
def parse (source : String) : Except ParseError Expr :=
  let stopped (rest : List Char) (expected : List Expectation) : Except ParseError Expr :=
    .error ⟨source, source.utf8ByteSize - ParseError.byteCount rest, expected⟩
  match Grammar.condition source.toList with
  | .done e [] => .ok e
  | .done _ rest => stopped rest []
  | .failed _ rest expected => stopped rest expected

end Rulebook.Condition
