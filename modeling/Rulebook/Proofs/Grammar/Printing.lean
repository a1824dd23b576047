import Rulebook.Proofs.Grammar.Completeness
import Rulebook.Proofs.Grammar.Extension
import Rulebook.Proofs.Subtrees

/-!
# Printed trees

The printer puts parentheses around operations and choices only, so a printed tree is an accessed
phrase, or a signed one if it is a sign in front of an operand. Every such phrase ends where
separated text begins, and so printed trees are put together as the grammar puts phrases together.
What is printed has to be what is read: a tree may hold values and names without a text of their
own.
-/
namespace Rulebook.Condition

namespace Expr

def isUnary : Expr → Bool
  | unary _ _ => true
  | _ => false

end Expr

namespace Grammar

open Text Text.Parser

/-- Values with a literal of their own that is printed. -/
def PrintableValue : Value → Prop
  | .null | .bool _ => True
  | .int n => 0 ≤ n.toInt
  | .string s => '\x27' ∉ s.toList
  | .float _ | .list _ | .map _ => False

/-- Nodes that are printed as they are read. -/
def PrintableNode : Expr → Prop
  | .literal v => PrintableValue v
  | .var n => IsName n
  | .field target n | .call target n _ => IsName n ∧ target.isUnary = false
  | .index target _ => target.isUnary = false
  | _ => True

/-- The level that a tree is printed at. -/
def printedLevel (e : Expr) : Level := if e.isUnary then .signed else .accessed

/-- The printed tree is a phrase in front of any separated text. -/
def Reads (e : Expr) : Prop :=
  ∀ t, Separates t → Derives (printedLevel e) (e.chars ++ t) e t

theorem Reads.at_level {e : Expr} (h : Reads e) (l : Level) {t : List Char} (ht : Separates t)
    (hl : l.rank ≤ Level.rank .signed) : Derives l (e.chars ++ t) e t := by
  refine (h t ht).loosen (Nat.le_trans hl ?_)
  unfold printedLevel
  split <;> decide

theorem Reads.accessed {e : Expr} (h : Reads e) (he : e.isUnary = false) {t : List Char}
    (ht : Separates t) : Derives .accessed (e.chars ++ t) e t := by
  have := h t ht
  rwa [printedLevel, he] at this

theorem reads_of_accessed {e : Expr} (he : e.isUnary = false)
    (h : ∀ t, Separates t → Derives .accessed (e.chars ++ t) e t) : Reads e := by
  intro t ht
  rw [printedLevel, he]
  exact h t ht

theorem reads_of_primary {e : Expr} (he : e.isUnary = false)
    (h : ∀ t, Separates t → Derives .primary (e.chars ++ t) e t) : Reads e :=
  reads_of_accessed he fun t ht => .tighter rfl (h t ht)

theorem digitRun_natChars (n : Nat) {t : List Char} (ht : Separates t) :
    DigitRun (Decimal.natChars n ++ t) (Decimal.natChars n) t :=
  ⟨Decimal.natChars_ne_nil n, rfl, fun _ hd => Decimal.isDigit_of_mem_natChars hd, ht.digit⟩

theorem doubled_eq_self {cs : List Char} (h : '\x27' ∉ cs) : doubled cs = cs := by
  induction cs with
  | nil => rfl
  | cons c cs ih =>
    have hc : c ≠ '\x27' := fun hc => h (by simp [hc])
    rw [doubled_cons_of_ne hc, ih fun hmem => h (by simp [hmem])]

theorem literalText_chars {v : Value} (h : PrintableValue v) {t : List Char} (ht : Separates t) :
    LiteralText (v.chars ++ t) v t := by
  cases v with
  | null => exact .null ⟨rfl, ht.name⟩
  | bool b =>
    cases b with
    | true => exact .yes ⟨rfl, ht.name⟩
    | false => exact .no ⟨rfl, ht.name⟩
  | int n =>
    obtain ⟨k, hk⟩ := Int.eq_ofNat_of_zero_le h
    have hn : Int64.ofNat k = n := by rw [← Int64.ofInt_eq_ofNat, ← hk, Int64.ofInt_toInt]
    have range : Decimal.natOfChars (Decimal.natChars k) < 2 ^ 63 := by
      rw [Decimal.natOfChars_natChars]
      have := n.toInt_lt
      omega
    have text := LiteralText.int (digitRun_natChars k ht) range
    rw [Decimal.natOfChars_natChars, hn] at text
    rw [Value.chars, hk]
    simpa using text
  | string s =>
    have text : LiteralText ('\x27' :: (doubled s.toList ++ '\x27' :: t)) _ t :=
      .singleQuoted ht.quote
    rw [doubled_eq_self h, String.ofList_toList] at text
    simpa [Value.chars] using text
  | float | list | map => exact absurd h id

theorem name_chars {n : String} (hn : IsName n) {t : List Char} (ht : EndsBefore isNameChar t) :
    Name (n.toList ++ t) n t := ⟨hn, rfl, ht⟩

theorem reads_literal {v : Value} (h : LiteralText v.chars v []) : Reads (.literal v) :=
  reads_of_primary rfl fun _ ht => .literal (Blanks.refl _) (h.append ht)

theorem reads_var {n : String} (hn : IsName n) : Reads (.var n) :=
  reads_of_primary rfl fun _ ht => .marked (Blanks.refl _) (name_chars hn ht.name)

theorem items_chars {es : List Expr} (h : ∀ e ∈ es, Reads e) {t : List Char} (ht : Separates t) :
    Items (Expr.listChars es ++ t) es t := by
  induction es with
  | nil => exact .none
  | cons e es ih =>
    cases es with
    | nil => exact .last ((h e (by simp)).at_level .choice ht (by decide))
    | cons e' es =>
      have hcomma : Separates (',' :: ' ' :: (Expr.listChars (e' :: es) ++ t)) := separates_cons rfl
      have item := (h e (by simp)).at_level .choice hcomma (by decide)
      have others := (ih fun x hx => h x (by simp [hx])).behind (blanks_space _)
      rw [Expr.listChars]
      simpa using Items.more item (Blanks.refl _) others

theorem reads_list {es : List Expr} (h : ∀ e ∈ es, Reads e) : Reads (.list es) := by
  refine reads_of_primary rfl fun t _ => ?_
  have items := items_chars h (separates_cons rfl : Separates ('\x7d' :: t))
  simpa [Expr.chars] using Derives.list (Blanks.refl _) items (Blanks.refl _)

theorem reads_field {target : Expr} {n : String} (htarget : Reads target)
    (hplain : target.isUnary = false) (hn : IsName n) : Reads (.field target n) := by
  refine reads_of_accessed rfl fun t ht => ?_
  have front := htarget.accessed hplain (separates_cons rfl : Separates ('.' :: (n.toList ++ t)))
  simpa [Expr.chars] using Derives.field front (Blanks.refl _) (name_chars hn ht.name)

theorem reads_index {target position : Expr} (htarget : Reads target)
    (hplain : target.isUnary = false) (hposition : Reads position) :
    Reads (.index target position) := by
  refine reads_of_accessed rfl fun t _ => ?_
  have front := htarget.accessed hplain
    (separates_cons rfl : Separates ('[' :: (position.chars ++ ']' :: t)))
  have inside := hposition.at_level .choice (separates_cons rfl : Separates (']' :: t)) (by decide)
  simpa [Expr.chars] using Derives.index front (Blanks.refl _) inside (Blanks.refl _)

theorem reads_call {target : Expr} {n : String} {args : List Expr} (htarget : Reads target)
    (hplain : target.isUnary = false) (hn : IsName n) (hargs : ∀ e ∈ args, Reads e) :
    Reads (.call target n args) := by
  refine reads_of_accessed rfl fun t _ => ?_
  have opened : Separates ('(' :: (Expr.listChars args ++ ')' :: t)) := separates_cons rfl
  have front := htarget.accessed hplain
    (separates_cons rfl : Separates ('.' :: (n.toList ++ '(' :: (Expr.listChars args ++ ')' :: t))))
  have items := items_chars hargs (separates_cons rfl : Separates (')' :: t))
  have call := Derives.call front (Blanks.refl _) (name_chars hn opened.name) (Blanks.refl _) items
    (Blanks.refl _)
  simpa [Expr.chars] using call

theorem reads_unary (op : UnaryOp) {e : Expr} (h : Reads e) : Reads (.unary op e) := by
  intro t ht
  have operand := h.at_level .signed ht (by decide)
  cases op with
  | not => exact .signed (Blanks.refl _) .bang operand
  | neg => exact .signed (Blanks.refl _) .minus operand

/-- What stands between printed parentheses, up to the closing one. -/
theorem reads_enclosed {e : Expr} {symbol : String} {left right : Expr} (he : e.isUnary = false)
    (text : e.chars = Expr.enclosed left.chars symbol right.chars)
    (inside : ∀ t, Derives .choice (left.chars ++ ' ' :: (symbol.toList ++
      ' ' :: (right.chars ++ ')' :: t))) e (')' :: t)) : Reads e := by
  refine reads_of_primary he fun t _ => ?_
  rw [text]
  simpa [Expr.enclosed] using Derives.enclosed (Blanks.refl _) (inside t) (Blanks.refl _)

section Operands

variable {left right : Expr} (hleft : Reads left) (hright : Reads right)
include hleft hright

/-- Operands of a level that chains, with a blank on both sides of the operator. -/
theorem reads_joined {e : Expr} {symbol : String} {join : Expr → Expr → Expr} {l l' : Level}
    (below : l.tighter = some l') (hl : l'.rank ≤ Level.rank .signed)
    (op : ∀ t, Joins l (symbol.toList ++ ' ' :: t) join (' ' :: t)) (tree : join left right = e)
    (he : e.isUnary = false) (text : e.chars = Expr.enclosed left.chars symbol right.chars) :
    Reads e := by
  have hrank := Level.rank_of_tighter below
  refine reads_enclosed he text fun t => ?_
  have first := hleft.at_level l (separates_cons rfl : Separates (' ' :: (symbol.toList ++
    ' ' :: (right.chars ++ ')' :: t)))) (by omega)
  have second := hright.at_level l' (separates_cons rfl : Separates (')' :: t)) hl
  have joined := Derives.joined below first (blanks_space _) (op _)
    (second.behind (blanks_space _)) tree
  exact joined.loosen (Nat.zero_le _)

theorem reads_comparison {op : BinaryOp} (mem : op ∈ comparisons) :
    Reads (.binary op left right) := by
  refine reads_enclosed rfl rfl fun t => ?_
  have first := hleft.at_level .sum (separates_cons rfl : Separates (' ' :: (op.symbol.toList ++
    ' ' :: (right.chars ++ ')' :: t)))) (by decide)
  have second := hright.at_level .sum (separates_cons rfl : Separates (')' :: t)) (by decide)
  have comparison := Derives.comparison first mem (blanks_space _) (second.behind (blanks_space _))
  exact comparison.loosen (Nat.zero_le _)

theorem reads_symbol (l : Level) {l' : Level} {op : BinaryOp} (mem : op ∈ l.symbols)
    (below : l.tighter = some l') (hl : l'.rank ≤ Level.rank .signed) :
    Reads (.binary op left right) :=
  reads_joined hleft hright below hl (fun _ => .symbol mem) rfl rfl rfl

theorem reads_binary (op : BinaryOp) : Reads (.binary op left right) := by
  cases op with
  | eq | ne => exact reads_symbol hleft hright .equality (by decide) rfl (by decide)
  | add | sub => exact reads_symbol hleft hright .sum (by decide) rfl (by decide)
  | mul | div | rem => exact reads_symbol hleft hright .product (by decide) rfl (by decide)
  | gt | ge | lt | le => exact reads_comparison hleft hright (by decide)

theorem reads_and : Reads (.and left right) := by
  have op (t : List Char) : Joins .conjunction ("and".toList ++ ' ' :: t) .and (' ' :: t) :=
    .and ⟨rfl, endsBefore_cons.mpr (by decide)⟩
  exact reads_joined hleft hright rfl (by decide) op rfl rfl rfl

theorem reads_or : Reads (.or left right) := by
  have op (t : List Char) : Joins .disjunction ("or".toList ++ ' ' :: t) .or (' ' :: t) :=
    .or ⟨rfl, endsBefore_cons.mpr (by decide)⟩
  exact reads_joined hleft hright rfl (by decide) op rfl rfl rfl

end Operands

theorem reads_ternary {c a b : Expr} (hc : Reads c) (ha : Reads a) (hb : Reads b) :
    Reads (.ternary c a b) := by
  refine reads_of_primary rfl fun t _ => ?_
  have second := hb.at_level .choice (separates_cons rfl : Separates (')' :: t)) (by decide)
  have first := ha.at_level .choice
    (separates_cons rfl : Separates (' ' :: ':' :: ' ' :: (b.chars ++ ')' :: t))) (by decide)
  have condition := hc.at_level .disjunction (separates_cons rfl : Separates
    (' ' :: '?' :: ' ' :: (a.chars ++ ' ' :: ':' :: ' ' :: (b.chars ++ ')' :: t)))) (by decide)
  have choice := Derives.choice condition (blanks_space _) (first.behind (blanks_space _))
    (blanks_space _) (second.behind (blanks_space _))
  simpa [Expr.chars] using Derives.enclosed (Blanks.refl _) choice (Blanks.refl _)

/-- Nodes that are read as they are printed, whatever it takes to read a literal. -/
def LegibleNode : Expr → Prop
  | .literal v => LiteralText v.chars v []
  | .var n => IsName n
  | .field target n | .call target n _ => IsName n ∧ target.isUnary = false
  | .index target _ => target.isUnary = false
  | _ => True

theorem reads_of_legible {e : Expr} (h : e.Everywhere LegibleNode) : Reads e := by
  induction h with
  | @node e here _ ih =>
    cases e with
    | literal v => exact reads_literal here
    | var n => exact reads_var here
    | list items => exact reads_list ih
    | field target n => exact reads_field (ih _ (by simp)) here.2 here.1
    | index target position =>
      exact reads_index (ih _ (by simp)) here (ih _ (by simp))
    | call target n args =>
      exact reads_call (ih _ (by simp)) here.2 here.1
        fun x hx => ih x (by simp [hx])
    | unary op operand => exact reads_unary op (ih _ (by simp))
    | binary op left right =>
      exact reads_binary (ih _ (by simp)) (ih _ (by simp)) op
    | and left right =>
      exact reads_and (ih _ (by simp)) (ih _ (by simp))
    | or left right =>
      exact reads_or (ih _ (by simp)) (ih _ (by simp))
    | ternary c a b =>
      exact reads_ternary (ih _ (by simp)) (ih _ (by simp))
        (ih _ (by simp))

theorem legible_of_printable (e : Expr) (h : PrintableNode e) : LegibleNode e := by
  cases e with
  | literal v =>
    have text := literalText_chars h separates_nil
    rwa [List.append_nil] at text
  | _ => exact h

theorem reads_of_printable {e : Expr} (h : e.Everywhere PrintableNode) : Reads e :=
  reads_of_legible (h.mono legible_of_printable)

theorem Reads.describes {e : Expr} (h : Reads e) : Describes e.text e := by
  have whole := h.at_level .choice separates_nil (by decide)
  exact ⟨[], by simpa [Expr.text] using whole, Blanks.refl _⟩

theorem describes_text {e : Expr} (h : e.Everywhere PrintableNode) : Describes e.text e :=
  (reads_of_printable h).describes

/-- Values with a literal of their own. -/
def ReadableValue : Value → Prop
  | .null | .bool _ | .float _ | .string _ => True
  | .int n => 0 ≤ n.toInt
  | .list _ | .map _ => False

/-- Nodes that reading yields. -/
def ReadableNode : Expr → Prop
  | .literal v => ReadableValue v
  | .var n | .field _ n | .call _ n _ => IsName n
  | _ => True

theorem readableValue_of_literalText {s t : List Char} {v : Value} (h : LiteralText s v t) :
    ReadableValue v := by
  cases h with
  | int digits range =>
    have := Int64.toInt_ofNat_of_lt range
    simp [ReadableValue, this]
  | _ => trivial

theorem Joins.everywhere {l : Level} {s t : List Char} {join : Expr → Expr → Expr}
    (h : Joins l s join t) {left right : Expr} (hleft : left.Everywhere ReadableNode)
    (hright : right.Everywhere ReadableNode) : (join left right).Everywhere ReadableNode := by
  have below : ∀ c ∈ [left, right], c.Everywhere ReadableNode := by
    simp [hleft, hright]
  cases h <;> exact .node trivial below

mutual

theorem Derives.everywhere {l : Level} {s t : List Char} {e : Expr} :
    Derives l s e t → e.Everywhere ReadableNode
  | .tighter _ h => h.everywhere
  | .choice condition _ first _ second =>
    .node trivial (by simp [condition.everywhere, first.everywhere, second.everywhere])
  | .joined _ first _ op second tree => tree ▸ op.everywhere first.everywhere second.everywhere
  | .comparison first _ _ second =>
    .node trivial (by simp [first.everywhere, second.everywhere])
  | .signed _ _ operand => .node trivial (by simp [operand.everywhere])
  | .field target _ name => .node name.1 (by simp [target.everywhere])
  | .call target _ name _ arguments _ =>
    .node name.1 (List.forall_mem_cons.mpr ⟨target.everywhere, arguments.everywhere⟩)
  | .index target _ position _ =>
    .node trivial (by simp [target.everywhere, position.everywhere])
  | .enclosed _ inside _ => inside.everywhere
  | .list _ items _ => .node trivial items.everywhere
  | .literal _ text => .leaf (readableValue_of_literalText text) rfl
  | .marked _ name | .bare _ name _ => .leaf name.1 rfl

theorem Items.everywhere {s t : List Char} {es : List Expr} :
    Items s es t → ∀ e ∈ es, e.Everywhere ReadableNode
  | .none => by simp
  | .last item => by simp [item.everywhere]
  | .more item _ others => List.forall_mem_cons.mpr ⟨item.everywhere, others.everywhere⟩

end

/-- Nodes that are not changed by printing and reading: no floating-point literal, no quote in a
string, no access to an operation with a sign. -/
def PlainNode : Expr → Prop
  | .literal (.float _) => False
  | .literal (.string s) => '\x27' ∉ s.toList
  | .field target _ | .call target _ _ | .index target _ => target.isUnary = false
  | _ => True

theorem printable_of_readable (e : Expr) (hr : ReadableNode e) (hp : PlainNode e) :
    PrintableNode e := by
  cases e with
  | literal v =>
    cases v with
    | float x => exact hp
    | string s => exact hp
    | _ => exact hr
  | field | call => exact ⟨hr, hp⟩
  | index => exact hp
  | var => exact hr
  | _ => trivial

/-- Printing and reading a printable tree yields the tree, and every tree that was read is printable
if its nodes are plain. -/
theorem parse_text :
    (∀ e : Expr, e.Everywhere PrintableNode → parse e.text = .ok e) ∧
      ∀ (source : String) (e : Expr), parse source = .ok e → e.Everywhere PlainNode →
        parse e.text = .ok e := by
  have printed : ∀ e : Expr, e.Everywhere PrintableNode → parse e.text = .ok e :=
    fun e h => parse_of_describes (describes_text h)
  refine ⟨printed, fun source e h plain => printed e ?_⟩
  obtain ⟨t, derives, -⟩ := describes_of_parse h
  exact derives.everywhere.mp printable_of_readable plain

/-- Signs stand in front of signs, reserved words are names behind `#` and points, and a choice may
be an index. -/
theorem parse_text_nested :
    let signed : Expr := .unary .neg (.unary .neg (.literal (.int 5)))
    let call : Expr := .call (.var "and") "not" [.literal (.string "a"), .list []]
    let chosen : Expr := .index (.list []) (.ternary (.var "x") (.var "y") (.literal .null))
    (((Expr.and signed call).Everywhere PrintableNode ∧ parse "{ }[x?y:null]" = .ok chosen ∧
        chosen.Everywhere PlainNode) ∧
      parse (Expr.and signed call).text = .ok (.and signed call)) ∧
      parse chosen.text = .ok chosen := by
  intro signed call chosen
  have hand : IsName "and" := isName_of_reserved (by decide)
  have hnot : IsName "not" := isName_of_reserved (by decide)
  have hfive : (Expr.literal (.int 5)).Everywhere PrintableNode :=
    .leaf (by simp [PrintableNode, PrintableValue]) rfl
  have hsigned : signed.Everywhere PrintableNode :=
    .node trivial <| List.forall_mem_singleton.mpr <|
      .node trivial <| List.forall_mem_singleton.mpr hfive
  have hletter : (Expr.literal (.string "a")).Everywhere PrintableNode :=
    .leaf (by simp [PrintableNode, PrintableValue]) rfl
  have hcall : call.Everywhere PrintableNode :=
    .node ⟨hnot, rfl⟩ <| List.forall_mem_cons.mpr ⟨.leaf hand rfl,
      List.forall_mem_cons.mpr ⟨hletter, List.forall_mem_singleton.mpr (.leaf trivial rfl)⟩⟩
  have hprintable : (Expr.and signed call).Everywhere PrintableNode :=
    .node trivial (List.forall_mem_cons.mpr ⟨hsigned, List.forall_mem_singleton.mpr hcall⟩)
  have hread : parse "{ }[x?y:null]" = .ok chosen := by decide +kernel
  have hchoice : (Expr.ternary (.var "x") (.var "y") (.literal .null)).Everywhere PlainNode :=
    .node trivial <| List.forall_mem_cons.mpr ⟨.leaf trivial rfl,
      List.forall_mem_cons.mpr ⟨.leaf trivial rfl,
        List.forall_mem_singleton.mpr (.leaf trivial rfl)⟩⟩
  have hchosen : chosen.Everywhere PlainNode :=
    .node rfl <| List.forall_mem_cons.mpr ⟨.leaf trivial rfl, List.forall_mem_singleton.mpr hchoice⟩
  exact ⟨⟨⟨hprintable, hread, hchosen⟩, parse_text.1 _ hprintable⟩, parse_text.2 _ _ hread hchosen⟩

end Grammar

end Rulebook.Condition
