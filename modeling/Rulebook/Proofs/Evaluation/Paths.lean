import Rulebook.Evaluator
import Rulebook.Proofs.Facts
import Rulebook.Proofs.Grammar.Completeness
import Rulebook.Proofs.Grammar.Extension

/-!
# Paths in conditions

A dotted path names the same value in a condition as it does to the facts. The two readers share
nothing: facts split the path at its dots and descend into maps, while a condition is read as a
variable with a chain of fields. Where the path leads nowhere, evaluation fails because a name is
missing and for no other reason.
-/
namespace Rulebook.Condition.Grammar
open Text Text.Parser

theorem IsName.no_dot {n : String} (h : IsName n) : '.' ∉ n.toList :=
  fun hdot => absurd (h.isNameChar hdot) (by decide)

theorem isName_iff {n : String} :
    IsName n ↔ n.toList.head?.any isNameStart ∧ n.toList.tail.all isNameChar := by
  constructor
  · rintro ⟨c, cs, hn, hc, hcs⟩
    simpa [hn, hc] using hcs
  · cases hn : n.toList with
    | nil => simp
    | cons c cs => exact fun ⟨hc, hcs⟩ => ⟨c, cs, hn, hc, List.all_eq_true.mp hcs⟩

instance : DecidablePred IsName := fun _ => decidable_of_iff _ isName_iff.symm

/-- Names behind points are fields of what stands before them. -/
theorem derives_fields {s t : List Char} {e : Expr} {names : List String}
    (isName : ∀ n ∈ names, IsName n) (ht : EndsBefore isNameChar t)
    (target : Derives .accessed s e (names.flatMap (fun n => '.' :: n.toList) ++ t)) :
    Derives .accessed s (names.foldl .field e) t := by
  induction names generalizing e with
  | nil => exact target
  | cons n names ih =>
    have hstop : EndsBefore isNameChar (names.flatMap (fun n => '.' :: n.toList) ++ t) := by
      cases names with
      | nil => exact ht
      | cons => exact endsBefore_cons.mpr (by decide)
    have name : Name (n.toList ++ (names.flatMap (fun n => '.' :: n.toList) ++ t)) n _ :=
      ⟨isName n (by simp), rfl, hstop⟩
    rw [List.flatMap_cons, List.append_assoc] at target
    exact ih (fun m hm => isName m (by simp [hm])) (.field target (Blanks.refl _) name)

end Rulebook.Condition.Grammar

namespace Rulebook

open Condition Condition.Grammar Text Text.Parser

/-- A path of names as a condition writes it. The first name may be reserved only behind `#`. -/
structure DottedPath where
  marked : Bool
  first : String
  others : List String
  isName : ∀ n ∈ first :: others, IsName n
  free : marked = false → first ∉ reserved

namespace DottedPath

variable (p : DottedPath)

/-- The path as facts know it. -/
def dotted : String := Path.join p.first p.others

def chars : List Char := if p.marked then '#' :: p.dotted.toList else p.dotted.toList

/-- The path as a condition writes it. -/
def text : String := String.ofList p.chars

/-- The tree of the path: a variable and its fields. -/
def expr : Expr := p.others.foldl .field (.var p.first)

theorem segments_dotted : Path.segments p.dotted = p.first :: p.others :=
  Path.segments_join fun n hn => (p.isName n hn).no_dot

/-- A path is a phrase wherever its last name may end. -/
theorem derives {t : List Char} (ht : EndsBefore isNameChar t) :
    Derives .accessed (p.chars ++ t) p.expr t := by
  refine derives_fields (fun n hn => p.isName n (by simp [hn])) ht (.tighter rfl ?_)
  have hstop : EndsBefore isNameChar (p.others.flatMap (fun n => '.' :: n.toList) ++ t) := by
    cases p.others with
    | nil => exact ht
    | cons => exact endsBefore_cons.mpr (by decide)
  have name : Name (p.dotted.toList ++ t) p.first
      (p.others.flatMap (fun n => '.' :: n.toList) ++ t) :=
    ⟨p.isName p.first (by simp), by simp [dotted, Path.join], hstop⟩
  cases hmarked : p.marked with
  | true =>
    rw [chars, hmarked]
    exact .marked (Blanks.refl _) name
  | false =>
    rw [chars, hmarked]
    exact .bare (Blanks.refl _) name (p.free hmarked)

theorem parse_path : parse p.text = .ok p.expr := by
  refine parse_of_describes ⟨[], ?_, Blanks.refl _⟩
  have whole := (p.derives (endsBefore_nil isNameChar)).loosen (l := .choice) (Nat.zero_le _)
  simpa [text] using whole

end DottedPath

namespace Condition

/-- Errors of a name that leads nowhere. -/
inductive EvalError.Missing : EvalError → Prop
  | variable (name : String) : Missing (.unknownVariable name)
  | property (name : String) (kind : Kind) : Missing (.unknownProperty name kind)
  | ofNull (name : String) : Missing (.nullReference name)

/-- The result is what a lookup found, or the error of a missing name if it found nothing. -/
inductive Finds : Except EvalError Value → Option Value → Prop
  | value (v : Value) : Finds (.ok v) (some v)
  | missing {e : EvalError} (h : e.Missing) : Finds (.error e) none

theorem Finds.ok_iff {result : Except EvalError Value} {found : Option Value}
    (h : Finds result found) (v : Value) : result = .ok v ↔ found = some v := by
  cases h <;> simp

theorem Finds.of_none {result : Except EvalError Value} (h : Finds result none) :
    ∃ e, result = .error e ∧ e.Missing := by
  cases h with
  | missing missing => exact ⟨_, rfl, missing⟩

theorem finds_var (facts : Facts) (name : String) :
    Finds ((Expr.var name).eval facts) (facts.get? name) := by
  rw [Expr.eval]
  cases facts.get? name with
  | some v => exact .value v
  | none => exact .missing (.variable name)

theorem finds_fieldOf (v : Value) (name : String) : Finds (fieldOf v name) (v.field? name) := by
  cases v with
  | map entries =>
    rw [fieldOf, Value.field?]
    cases Entries.get? name entries with
    | some w => exact .value w
    | none => exact .missing (.property name .map)
  | null => exact .missing (.ofNull name)
  | _ => exact .missing (.property name _)

theorem Finds.field {facts : Facts} {e : Expr} {found : Option Value}
    (h : Finds (e.eval facts) found) (name : String) :
    Finds ((e.field name).eval facts) (found.bind (·.field? name)) := by
  rw [Expr.eval]
  generalize e.eval facts = result at h ⊢
  cases h with
  | value v => exact finds_fieldOf v name
  | missing h => exact .missing h

theorem Finds.fields {facts : Facts} {e : Expr} {found : Option Value}
    (h : Finds (e.eval facts) found) (names : List String) :
    Finds ((names.foldl .field e).eval facts) (found.bind (names.foldlM Value.field?)) := by
  induction names generalizing e found with
  | nil => cases found <;> exact h
  | cons n names ih =>
    have hrest := ih (h.field n)
    rwa [Option.bind_assoc] at hrest

end Condition

namespace DottedPath

variable (p : DottedPath)

theorem finds_eval (facts : Facts) : Finds (p.expr.eval facts) (facts.getPath? p.dotted) := by
  rw [Facts.getPath?, segments_dotted, Value.getAt_cons]
  exact (finds_var facts p.first).fields p.others

theorem evaluate_text (facts : Facts) : Condition.evaluate p.text facts = p.expr.eval facts := by
  rw [Condition.evaluate, parse_path]

/-- A path evaluates to the value that the facts hold at it, and fails for want of a name if they
hold none. So what was stored at a path is its value, whatever the facts were before. -/
theorem evaluate_path (facts : Facts) :
    (∀ v, Condition.evaluate p.text facts = .ok v ↔ facts.getPath? p.dotted = some v) ∧
      (facts.getPath? p.dotted = none →
        ∃ e, Condition.evaluate p.text facts = .error e ∧ e.Missing) ∧
      ∀ v, Condition.evaluate p.text (facts.insert p.dotted v) = .ok v := by
  simp only [evaluate_text]
  have h := p.finds_eval facts
  refine ⟨h.ok_iff, fun hnone => ?_, fun v => ?_⟩
  · rw [hnone] at h
    exact h.of_none
  · exact ((p.finds_eval _).ok_iff v).mpr (facts.getPath?_insert p.dotted v)

/-- Behind the mark every name will do, and a scalar on the way gives way to a map. -/
example : Condition.evaluate "#and.not" ((Facts.ofList [("and", .int 1)]).insert "and.not" .null) =
    .ok .null := by decide +kernel

end DottedPath

end Rulebook
