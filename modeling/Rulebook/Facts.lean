import Rulebook.Value

/-!
# Facts

The facts of one evaluation: values by name, with dotted paths that lead into maps. Writing below a
value that is not a map replaces it by one.
-/
namespace Rulebook

namespace Path

/-- The parts of a text between dots. There is always a first one, and parts may be empty. -/
def splitDots : List Char → List (List Char)
  | [] => [[]]
  | c :: rest =>
    if c = '.' then [] :: splitDots rest
    else
      match splitDots rest with
      | [] => [[c]]
      | part :: parts => (c :: part) :: parts

/-- The segments of a dotted path. -/
def segments (path : String) : List String := (splitDots path.toList).map String.ofList

theorem splitDots_ne_nil (cs : List Char) : splitDots cs ≠ [] := by
  cases cs with
  | nil => simp [splitDots]
  | cons c rest =>
    simp only [splitDots]
    split
    · simp
    · split <;> simp

theorem segments_ne_nil (path : String) : segments path ≠ [] := by
  simp [segments, splitDots_ne_nil]

end Path

/-- The entries of a map; anything else has none. -/
def Value.entriesOf : Option Value → List (String × Value)
  | some (.map entries) => entries
  | _ => []

/-- Store a value at a path of segments, making maps on the way where there are none. -/
def Value.insertAt : List String → Value → List (String × Value) → List (String × Value)
  | [], _, entries => entries
  | [last], v, entries => Entries.insert last v entries
  | first :: next :: rest, v, entries =>
    let below := insertAt (next :: rest) v (entriesOf (Entries.get? first entries))
    Entries.insert first (.map below) entries

theorem Value.ascending_insertAt {entries : List (String × Value)}
    (h : Entries.Ascending entries) (segments : List String) (v : Value) :
    Entries.Ascending (insertAt segments v entries) := by
  match segments with
  | [] => exact h
  | [last] => exact h.insert last v
  | first :: next :: rest => exact h.insert first _

/-- The value at a path of segments, descending into maps only. -/
def Value.getAt : List String → List (String × Value) → Option Value
  | [], _ => none
  | [last], entries => Entries.get? last entries
  | first :: next :: rest, entries =>
    match Entries.get? first entries with
    | some (.map below) => getAt (next :: rest) below
    | _ => none

/-- Named values. -/
structure Facts extends KeyMap String Value
deriving Inhabited, Repr

namespace Facts

def empty : Facts := ⟨.empty⟩

/-- Store a value at a dotted path. -/
def insert (facts : Facts) (path : String) (v : Value) : Facts where
  entries := Value.insertAt (Path.segments path) v facts.entries
  ascending := Value.ascending_insertAt facts.ascending _ v

/-- Store several values, one after the other. -/
def extend (facts : Facts) (pairs : List (String × Value)) : Facts :=
  pairs.foldl (fun f e => f.insert e.1 e.2) facts

def ofList (pairs : List (String × Value)) : Facts := empty.extend pairs

/-- The value of a name. Dots have no meaning here. -/
def get? (facts : Facts) (name : String) : Option Value := facts.toKeyMap.get? name

/-- The value at a dotted path. -/
def getPath? (facts : Facts) (path : String) : Option Value :=
  Value.getAt (Path.segments path) facts.entries

def isEmpty (facts : Facts) : Bool := facts.entries.isEmpty

/-- The names in ascending order. -/
def names (facts : Facts) : List String := facts.keys

/-- Strict equality of all values. -/
def same (a b : Facts) : Bool := Value.sameEntries a.entries b.entries

end Facts

end Rulebook
