/-!
# Parsers with committed failure

A parser reads a prefix of its input. It either leaves a rest or fails at some rest, and a failure
is committed or not: alternatives and repetitions recover from an uncommitted failure only. A
failure keeps what was expected, the innermost expectation first.

`Parser.fix` ties the knot of a recursive grammar: a nested parser runs on strictly shorter input
only, so the recursion is on the length of the input. The lemma `f_eq_done` of a combinator `f`
says when it succeeds.
-/
namespace Rulebook.Text

/-- How a parser ends. Expectations are of type `ε`. -/
inductive Outcome (ε α : Type) where
  | done (value : α) (rest : List Char)
  | failed (committed : Bool) (rest : List Char) (expected : List ε)
deriving DecidableEq, Repr

def Parser (ε α : Type) : Type := List Char → Outcome ε α

namespace Parser

variable {ε α β : Type}

/-- Take nothing and succeed. -/
def succeed (a : α) : Parser ε α := fun s => .done a s

@[simp] theorem succeed_apply (a : α) (s : List Char) :
    (succeed a : Parser ε α) s = .done a s := rfl

/-- One parser after the other. A failure stays where it happened. -/
def andThen (p : Parser ε α) (f : α → Parser ε β) : Parser ε β := fun s =>
  match p s with
  | .done a rest => f a rest
  | .failed committed rest expected => .failed committed rest expected

instance : Monad (Parser ε) where
  pure := succeed
  bind := andThen

theorem bind_of_done {p : Parser ε α} {s t : List Char} {a : α} (h : p s = .done a t)
    (f : α → Parser ε β) : (p >>= f) s = f a t := by
  show andThen p f s = _
  rw [andThen, h]

theorem bind_of_failed {p : Parser ε α} {s t : List Char} {committed : Bool} {expected : List ε}
    (h : p s = .failed committed t expected) (f : α → Parser ε β) :
    (p >>= f) s = .failed committed t expected := by
  show andThen p f s = _
  rw [andThen, h]

theorem bind_eq_done {p : Parser ε α} {f : α → Parser ε β} {s t : List Char} {b : β} :
    (p >>= f) s = .done b t ↔ ∃ a r, p s = .done a r ∧ f a r = .done b t := by
  cases h : p s with
  | done a r =>
    simp only [bind_of_done h, Outcome.done.injEq]
    exact ⟨fun h => ⟨a, r, ⟨rfl, rfl⟩, h⟩, by rintro ⟨_, _, ⟨rfl, rfl⟩, h⟩; exact h⟩
  | failed c r e => simp [bind_of_failed h]

/-- The second parser from the start again, if the first fails without commitment. -/
def orElse (p q : Parser ε α) : Parser ε α := fun s =>
  match p s with
  | .done a rest => .done a rest
  | .failed false _ _ => q s
  | .failed true rest expected => .failed true rest expected

theorem orElse_eq_done {p q : Parser ε α} {s t : List Char} {a : α} :
    orElse p q s = .done a t ↔
      p s = .done a t ∨ (∃ r e, p s = .failed false r e) ∧ q s = .done a t := by
  cases h : p s with
  | done b r => simp [orElse, h]
  | failed c r e => cases c <;> simp [orElse, h]

/-- Take nothing if the parser fails without commitment. -/
def optional (p : Parser ε α) : Parser ε (Option α) := fun s =>
  match p s with
  | .done a rest => .done (some a) rest
  | .failed false _ _ => .done none s
  | .failed true rest expected => .failed true rest expected

theorem optional_eq_done_some {p : Parser ε α} {s t : List Char} {a : α} :
    optional p s = .done (some a) t ↔ p s = .done a t := by
  cases h : p s with
  | done b r => simp [optional, h]
  | failed c r e => cases c <;> simp [optional, h]

theorem optional_eq_done_none {p : Parser ε α} {s t : List Char} :
    optional p s = .done none t ↔ (∃ r e, p s = .failed false r e) ∧ t = s := by
  cases h : p s with
  | done b r => simp [optional, h]
  | failed c r e => cases c <;> simp [optional, h, eq_comm]

/-- Turn every failure into a committed one. -/
def commit (p : Parser ε α) : Parser ε α := fun s =>
  match p s with
  | .done a rest => .done a rest
  | .failed _ rest expected => .failed true rest expected

@[simp] theorem commit_eq_done {p : Parser ε α} {s t : List Char} {a : α} :
    commit p s = .done a t ↔ p s = .done a t := by
  cases h : p s <;> simp [commit, h]

/-- Record an expectation with every failure. -/
def expecting (what : ε) (p : Parser ε α) : Parser ε α := fun s =>
  match p s with
  | .done a rest => .done a rest
  | .failed committed rest expected => .failed committed rest (expected ++ [what])

@[simp] theorem expecting_eq_done {what : ε} {p : Parser ε α} {s t : List Char} {a : α} :
    expecting what p s = .done a t ↔ p s = .done a t := by
  cases h : p s <;> simp [expecting, h]

/-- Refuse, at the start and without commitment, what a reader does not accept. -/
def accept (p : Parser ε α) (read : α → Option β) : Parser ε β := fun s =>
  match p s with
  | .done a rest =>
    match read a with
    | some b => .done b rest
    | none => .failed false s []
  | .failed committed rest expected => .failed committed rest expected

theorem accept_eq_done {p : Parser ε α} {read : α → Option β} {s t : List Char} {b : β} :
    accept p read s = .done b t ↔ ∃ a, p s = .done a t ∧ read a = some b := by
  cases h : p s with
  | done a r => cases h' : read a <;> simp only [accept, h, h', Outcome.done.injEq] <;> grind
  | failed c r e => simp [accept, h]

/-- As many repetitions as succeed. A repetition that takes nothing is not counted, since it could
be repeated for ever. -/
def many (p : Parser ε α) : Parser ε (List α)
  | s =>
    match p s with
    | .done a rest =>
      if rest.length < s.length then
        match many p rest with
        | .done as rest' => .done (a :: as) rest'
        | .failed committed rest' expected => .failed committed rest' expected
      else .done [] s
    | .failed false _ _ => .done [] s
    | .failed true rest expected => .failed true rest expected
termination_by s => s.length

theorem many_of_failed {p : Parser ε α} {s r : List Char} {expected : List ε}
    (h : p s = .failed false r expected) : many p s = .done [] s := by
  rw [many, h]

theorem many_of_done {p : Parser ε α} {s r : List Char} {a : α} (h : p s = .done a r)
    (shorter : r.length < s.length) : many p s = (do
      let as ← many p
      succeed (a :: as)) r := by
  rw [many, h]
  simp only [shorter, if_true]
  cases h' : many p r with
  | done as t => simp [bind_of_done h']
  | failed c t e => simp [bind_of_failed h']

/-- Items with a separator between them; none at all is allowed. A separator without an item after
it is not taken. -/
def sepBy (item : Parser ε α) (separator : Parser ε Unit) : Parser ε (List α) := do
  match ← optional item with
  | none => succeed []
  | some first => do
    let others ← many do
      separator
      item
    succeed (first :: others)

/-- Characters of a class, possibly none. -/
def takeWhile (p : Char → Bool) : Parser ε (List Char) := fun s =>
  .done (s.takeWhile p) (s.dropWhile p)

/-- The characters of a class in front of a text are those that none of the class follows. -/
theorem takeWhile_eq_done {p : Char → Bool} {s cs t : List Char} :
    (takeWhile p : Parser ε (List Char)) s = .done cs t ↔
      s = cs ++ t ∧ (∀ c ∈ cs, p c = true) ∧ ∀ c ∈ t.head?, p c = false := by
  simp only [takeWhile, Outcome.done.injEq]
  constructor
  · rintro ⟨rfl, rfl⟩
    refine ⟨(List.takeWhile_append_dropWhile).symm, fun c h => ?_, fun c h => ?_⟩
    · exact List.all_eq_true.1 List.all_takeWhile c h
    · have := List.head?_dropWhile_not p s
      rw [Option.mem_def.1 h] at this
      simpa using this
  · rintro ⟨rfl, all, stop⟩
    have front : ∀ cs : List Char, (∀ c ∈ cs, p c = true) →
        (cs ++ t).takeWhile p = cs ∧ (cs ++ t).dropWhile p = t := by
      intro cs all
      induction cs with
      | nil => cases t <;> simp_all
      | cons c cs ih => simp_all
    exact front cs all

/-- Characters of a class, at least one. -/
def takeWhile1 (p : Char → Bool) : Parser ε (List Char) := fun s =>
  if s.takeWhile p = [] then .failed false s [] else .done (s.takeWhile p) (s.dropWhile p)

theorem takeWhile1_eq_done {p : Char → Bool} {s cs t : List Char} :
    (takeWhile1 p : Parser ε (List Char)) s = .done cs t ↔
      cs ≠ [] ∧ s = cs ++ t ∧ (∀ c ∈ cs, p c = true) ∧ ∀ c ∈ t.head?, p c = false := by
  have whole : (takeWhile p : Parser ε (List Char)) s = .done cs t ↔ _ := takeWhile_eq_done
  rw [← whole]
  by_cases h : s.takeWhile p = []
  · simp only [takeWhile1, h, if_true, takeWhile]
    grind
  · simp only [takeWhile1, h, if_false, takeWhile]
    grind

/-- What is left after a given beginning. -/
def stripBeginning : List Char → List Char → Option (List Char)
  | [], s => some s
  | _ :: _, [] => none
  | w :: ws, c :: cs => if w = c then stripBeginning ws cs else none

theorem stripBeginning_eq_some {w s t : List Char} :
    stripBeginning w s = some t ↔ s = w ++ t := by
  fun_induction stripBeginning w s with
  | case1 s => simp
  | case2 => simp
  | case3 c ws cs ih => simp [ih]
  | case4 c ws d cs h => simp [Ne.symm h]

/-- Exactly the given characters. -/
def exactly (w : String) : Parser ε Unit := fun s =>
  match stripBeginning w.toList s with
  | some rest => .done () rest
  | none => .failed false s []

theorem exactly_eq_done {w : String} {s t : List Char} {u : Unit} :
    (exactly w : Parser ε Unit) s = .done u t ↔ s = w.toList ++ t := by
  rw [← stripBeginning_eq_some, exactly]
  cases stripBeginning w.toList s <;> simp

/-- Exactly the given character. -/
def char (c : Char) : Parser ε Unit
  | [] => .failed false [] []
  | d :: rest => if d = c then .done () rest else .failed false (d :: rest) []

theorem char_eq_done {c : Char} {s t : List Char} {u : Unit} :
    (char c : Parser ε Unit) s = .done u t ↔ s = c :: t := by
  cases s with
  | nil => simp [char]
  | cons d rest => by_cases h : d = c <;> simp [char, h]

/-- Succeed, taking nothing, unless the next character is of a class. -/
def notBefore (p : Char → Bool) : Parser ε Unit
  | [] => .done () []
  | c :: rest => if p c then .failed false (c :: rest) [] else .done () (c :: rest)

theorem notBefore_eq_done {p : Char → Bool} {s t : List Char} {u : Unit} :
    (notBefore p : Parser ε Unit) s = .done u t ↔ t = s ∧ ∀ c ∈ s.head?, p c = false := by
  cases s with
  | nil => simp [notBefore]
  | cons c rest => cases h : p c <;> simp [notBefore, h, @eq_comm _ t]

/-- The parser that refers to itself on shorter input. Longer input is refused to the nested
parser. -/
def fix (layer : Parser ε α → Parser ε α) : Parser ε α
  | s => layer (fun t => if t.length < s.length then fix layer t else .failed false t []) s
termination_by s => s.length

theorem fix_apply (layer : Parser ε α → Parser ε α) (s : List Char) :
    fix layer s =
      layer (fun t => if t.length < s.length then fix layer t else .failed false t []) s := by
  rw [fix]

end Parser

end Rulebook.Text
