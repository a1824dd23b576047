import Rulebook.Proofs.Decimal
import Rulebook.Proofs.Grammar.Weight

/-!
# Reading printed conditions again

The printed text of a tree that was read is not always read as that tree. A string is printed with
its single quotes as they are, an integral float without a point, and an access to an operand behind
a sign without the parentheses that made it one. The access then goes behind the sign, whatever the
tree around it. Nothing else is lost.
-/
namespace Rulebook.Condition

open Text Text.Parser Decimal

namespace Expr

/-- An access goes behind the signs in front of its target. -/
def behindSigns (access : Expr → Expr) : Expr → Expr
  | unary op e => unary op (behindSigns access e)
  | e => access e

mutual

/-- The tree with every access behind the signs in front of its target. -/
def regrouped : Expr → Expr
  | literal v => literal v
  | var n => var n
  | list items => list (regroupedAll items)
  | field target n => behindSigns (field · n) target.regrouped
  | index target position => behindSigns (index · position.regrouped) target.regrouped
  | call target n args => behindSigns (call · n (regroupedAll args)) target.regrouped
  | unary op operand => unary op operand.regrouped
  | binary op left right => binary op left.regrouped right.regrouped
  | and left right => and left.regrouped right.regrouped
  | or left right => or left.regrouped right.regrouped
  | ternary condition thenBranch elseBranch =>
    ternary condition.regrouped thenBranch.regrouped elseBranch.regrouped

def regroupedAll : List Expr → List Expr
  | [] => []
  | e :: es => e.regrouped :: regroupedAll es

end

theorem regroupedAll_eq_map (es : List Expr) : regroupedAll es = es.map regrouped := by
  induction es with
  | nil => rfl
  | cons e es ih => rw [regroupedAll, ih, List.map_cons]

theorem chars_behindSigns {access : Expr → Expr} {suffix : List Char}
    (h : ∀ e, (access e).chars = e.chars ++ suffix) (e : Expr) :
    (behindSigns access e).chars = e.chars ++ suffix := by
  fun_induction behindSigns access e with
  | case1 op e ih => rw [chars, ih, chars, List.append_assoc]
  | case2 e => exact h e

mutual

/-- The printed text does not tell on which side of a sign an access is. -/
theorem chars_regrouped : ∀ e : Expr, e.regrouped.chars = e.chars
  | literal _ | var _ => rfl
  | list items => by rw [regrouped, chars, listChars_regroupedAll items, chars]
  | field target n => by
    rw [regrouped, chars_behindSigns (fun e => by rw [chars]), chars_regrouped target, chars]
  | index target position => by
    rw [regrouped, chars_behindSigns (fun e => by rw [chars]), chars_regrouped target,
      chars_regrouped position, chars]
  | call target n args => by
    rw [regrouped, chars_behindSigns (fun e => by rw [chars]), chars_regrouped target,
      listChars_regroupedAll args, chars]
  | unary op operand => by rw [regrouped, chars, chars_regrouped operand, chars]
  | binary op left right => by
    rw [regrouped, chars, chars_regrouped left, chars_regrouped right, chars]
  | and left right => by rw [regrouped, chars, chars_regrouped left, chars_regrouped right, chars]
  | or left right => by rw [regrouped, chars, chars_regrouped left, chars_regrouped right, chars]
  | ternary c a b => by
    rw [regrouped, chars, chars_regrouped c, chars_regrouped a, chars_regrouped b, chars]

theorem listChars_regroupedAll : ∀ es : List Expr, listChars (regroupedAll es) = listChars es
  | [] => rfl
  | [e] => by rw [regroupedAll, regroupedAll, listChars, chars_regrouped e, listChars]
  | e :: e' :: es => by
    have hrest : listChars (e'.regrouped :: regroupedAll es) = listChars (e' :: es) :=
      listChars_regroupedAll (e' :: es)
    rw [regroupedAll, regroupedAll, listChars, chars_regrouped e, hrest, listChars]

end

end Expr

namespace Grammar

/-- Nodes with names and literals, whatever their accesses are. -/
def LegibleLeaf : Expr → Prop
  | .literal v => LiteralText v.chars v []
  | .var n | .field _ n | .call _ n _ => IsName n
  | _ => True

/-- No access to an operand behind a sign. -/
def PlainAccess : Expr → Prop
  | .field target _ | .call target _ _ | .index target _ => target.isUnary = false
  | _ => True

theorem legible_of_leaf (e : Expr) (h : LegibleLeaf e) (plain : PlainAccess e) : LegibleNode e := by
  cases e with
  | field | call => exact ⟨h, plain⟩
  | index => exact plain
  | _ => exact h

theorem plainAccess_of_legible (e : Expr) (h : LegibleNode e) : PlainAccess e := by
  cases e with
  | field | call => exact h.2
  | index => exact h
  | _ => trivial

theorem legible_behindSigns {access : Expr → Expr}
    (h : ∀ e, e.isUnary = false → e.Everywhere LegibleNode → (access e).Everywhere LegibleNode)
    {e : Expr} (he : e.Everywhere LegibleNode) :
    (Expr.behindSigns access e).Everywhere LegibleNode := by
  fun_induction Expr.behindSigns access e with
  | case1 op e ih =>
    cases he with
    | node _ below => exact .node trivial (List.forall_mem_singleton.mpr (ih (below e (by simp))))
  | case2 e hsign =>
    refine h e ?_ he
    cases e with
    | unary op e => exact absurd rfl (hsign op e)
    | _ => rfl

theorem legible_regrouped {e : Expr} (h : e.Everywhere LegibleLeaf) :
    e.regrouped.Everywhere LegibleNode := by
  induction h with
  | @node e here _ ih =>
    cases e with
    | literal | var => exact .leaf here rfl
    | list items =>
      rw [Expr.regrouped, Expr.regroupedAll_eq_map]
      exact .node trivial (List.forall_mem_map.mpr ih)
    | field target n =>
      rw [Expr.regrouped]
      refine legible_behindSigns (fun e he hlegible => ?_) (ih target (by simp))
      exact .node ⟨here, he⟩ (List.forall_mem_singleton.mpr hlegible)
    | index target position =>
      rw [Expr.regrouped]
      refine legible_behindSigns (fun e he hlegible => ?_) (ih target (by simp))
      exact .node he <| List.forall_mem_cons.mpr
        ⟨hlegible, List.forall_mem_singleton.mpr (ih position (by simp))⟩
    | call target n args =>
      rw [Expr.regrouped, Expr.regroupedAll_eq_map]
      refine legible_behindSigns (fun e he hlegible => ?_) (ih target (by simp))
      exact .node ⟨here, he⟩ <| List.forall_mem_cons.mpr
        ⟨hlegible, List.forall_mem_map.mpr fun arg harg => ih arg (by simp [harg])⟩
    | unary op operand =>
      exact .node trivial (List.forall_mem_singleton.mpr (ih operand (by simp)))
    | binary | and | or | ternary =>
      rw [Expr.regrouped]
      exact .node trivial (by simpa using ih)

/-- The digits that a float is printed with, where there is a point among them, are read as that
float. -/
def PrintsBack (x : Float) : Prop :=
  ∀ whole fraction, Value.floatChars x = whole ++ '.' :: fraction →
    (Digits.written whole fraction 0).nearest = x

/-- What is read from digits has no sign. -/
theorem PrintsBack.unsigned {x : Float} (h : PrintsBack x) (hpoint : '.' ∈ Value.floatChars x) :
    (Binary64.parts x).negative = false := by
  obtain ⟨whole, fraction, hchars⟩ := List.append_of_mem hpoint
  rw [Binary64.negative_parts, ← h whole fraction hchars]
  exact Digits.isNegative_nearest _

theorem literalText_float {x : Float} (h : PrintsBack x) (hpoint : '.' ∈ Value.floatChars x) :
    LiteralText (Value.floatChars x) (.float x) [] := by
  rcases floatChars_cases x with hword | ⟨body, hpositional, hchars⟩
  · simp only [List.mem_cons, List.not_mem_nil, or_false] at hword
    rcases hword with h | h | h <;> rw [h] at hpoint <;> exact absurd hpoint (by decide)
  · rw [h.unsigned hpoint, if_neg Bool.false_ne_true] at hchars
    cases hpositional with
    | whole digits => exact absurd (hchars ▸ hpoint) digits.not_mem_point
    | @pointed ds es front behind =>
      have text : LiteralText (ds ++ '.' :: es) (.float (Digits.written ds es 0).nearest) [] :=
        .float ⟨front.1, rfl, front.2, endsBefore_cons.mpr (by decide)⟩
          ⟨behind.1, (List.append_nil es).symm, behind.2, endsBefore_nil _⟩
      rwa [h ds es hchars, ← hchars] at text

theorem legibleLeaf_of_faithful (e : Expr)
    (h : ReadableNode e ∧ ∀ x, e = .literal (.float x) → PrintsBack x)
    (faithful : FaithfulLiteral e) : LegibleLeaf e := by
  obtain ⟨readable, floats⟩ := h
  have printable {v : Value} (hv : PrintableValue v) : LiteralText v.chars v [] := by
    have text := literalText_chars hv separates_nil
    rwa [List.append_nil] at text
  cases e with
  | literal v =>
    cases v with
    | float x => exact literalText_float (floats x rfl) faithful
    | string s => exact printable faithful
    | null | bool | int | list | map => exact printable readable
  | _ => exact readable

/-- A tree whose literals are printed as literals is read with its accesses behind signs. -/
theorem parse_text_regrouped {e : Expr} (leaves : e.Everywhere LegibleLeaf) :
    parse e.text = .ok e.regrouped := by
  have h := (reads_of_legible (legible_regrouped leaves)).describes
  rw [Expr.text, Expr.chars_regrouped] at h
  exact parse_of_describes h

/-- The printed text of a tree that was read is read as that tree again if and only if no string of
the tree has a single quote, no float is printed without a point, and nothing is accessed of an
operand behind a sign. Without such strings and floats, all that is different is that accesses go
behind signs. -/
theorem reparses_iff {source : String} {e : Expr} (parsed : parse source = .ok e)
    (floats : e.Everywhere fun c => ∀ x, c = .literal (.float x) → PrintsBack x) :
    (e.Everywhere FaithfulLiteral → parse e.text = .ok e.regrouped) ∧
      (parse e.text = .ok e ↔ e.Everywhere FaithfulLiteral ∧ e.Everywhere PlainAccess) := by
  obtain ⟨t, derives, -⟩ := describes_of_parse parsed
  have hleaves (faithful : e.Everywhere FaithfulLiteral) : e.Everywhere LegibleLeaf :=
    (derives.everywhere.mp (fun _ => And.intro) floats).mp legibleLeaf_of_faithful faithful
  refine ⟨fun faithful => parse_text_regrouped (hleaves faithful), fun h => ?_, fun h => ?_⟩
  · have faithful := (describes_of_parse h).faithful
    have hregrouped : e.regrouped = e :=
      Except.ok.inj ((parse_text_regrouped (hleaves faithful)).symm.trans h)
    have plain := (legible_regrouped (hleaves faithful)).mono plainAccess_of_legible
    exact ⟨faithful, hregrouped ▸ plain⟩
  · have legible : e.Everywhere LegibleNode := (hleaves h.1).mp legible_of_leaf h.2
    exact parse_of_describes (reads_of_legible legible).describes

/-- A string with a single quote is printed as it is and not read again. -/
theorem quote_not_reparsed :
    parse "\x22it's\x22" = .ok (.literal (.string "it's")) ∧
      parse (Expr.literal (.string "it's")).text ≠ .ok (.literal (.string "it's")) :=
  ⟨by decide +kernel, by decide +kernel⟩

/-- The parentheses around the sign are not printed, so the field is taken before the sign. -/
theorem reparses_iff_sign :
    let number : Expr := .literal (.float 1.5)
    let e : Expr := .field (.unary .neg number) "b"
    (parse "(-1.5).b" = .ok e ∧
        e.Everywhere fun c => ∀ x, c = .literal (.float x) → PrintsBack x) ∧
      parse e.text = .ok (.unary .neg (.field number "b")) ∧ parse e.text ≠ .ok e := by
  intro number e
  have printed : Value.floatChars 1.5 = ['1', '.', '5'] := by decide +kernel
  have back : PrintsBack 1.5 := by
    intro whole fraction hchars
    rw [printed] at hchars
    obtain ⟨_, rfl, rfl, rfl⟩ : ∃ ds, whole = '1' :: ds ∧ ds = [] ∧ fraction = ['5'] := by
      simpa [List.cons_eq_append_iff] using hchars
    decide +kernel
  have parsed : parse "(-1.5).b" = .ok e := by decide +kernel
  have floats : e.Everywhere fun c => ∀ x, c = .literal (.float x) → PrintsBack x :=
    .node (by simp [e]) <| List.forall_mem_singleton.mpr <|
      .unary (by simp) (.leaf (by simpa [number] using back) rfl)
  have faithful : e.Everywhere FaithfulLiteral :=
    .node trivial <| List.forall_mem_singleton.mpr <|
      .unary trivial (.leaf (by simp [number, FaithfulLiteral, printed]) rfl)
  obtain ⟨hregrouped, hiff⟩ := reparses_iff parsed floats
  refine ⟨⟨parsed, floats⟩, hregrouped faithful, fun h => ?_⟩
  cases (hiff.mp h).2 with
  | node here _ => exact Bool.noConfusion here

end Grammar

end Rulebook.Condition
