import Rulebook.Proofs.Grammar.Completeness
import Rulebook.Proofs.Text.Progress

/-!
# What the grammar takes

Every function of the grammar leaves an end of its text. The functions that stand for a level, and
whatever a loop repeats, take at least one character. Levels are settled for any nested parser that
leaves an end of its text; expressions are read by a fixed point of one layer, so theirs does.
-/
namespace Rulebook.Condition.Grammar
open Text Text.Parser

theorem leavesSuffix_blanks : LeavesSuffix blanks :=
  (leavesSuffix_takeWhile _).bind fun _ => leavesSuffix_succeed _

theorem advances_name : Advances name :=
  (advances_takeWhile1 _).bind fun _ =>
    (leavesSuffix_takeWhile _).bind fun _ => leavesSuffix_succeed _

theorem leavesSuffix_keyword (w : String) : LeavesSuffix (keyword w) :=
  (leavesSuffix_exactly w).bind fun _ => leavesSuffix_notBefore _

theorem advances_keyword {w : String} (hw : w.toList ≠ []) : Advances (keyword w) :=
  (advances_exactly hw).bind fun _ => leavesSuffix_notBefore _

theorem advances_var : Advances var := by
  intro s e t h
  rcases var_eq_done.mp h with ⟨m, n, rfl, hn, -⟩ | ⟨-, n, hn, -⟩
  · have hname := advances_name m n t (name_eq_done.mpr hn)
    exact ⟨hname.1.trans (List.suffix_cons _ _), Nat.lt_succ_of_lt hname.2⟩
  · exact advances_name s n t (name_eq_done.mpr hn)

theorem advances_singleQuotedRest : Advances singleQuotedRest := by
  intro s cs t h
  obtain ⟨rfl, -⟩ := singleQuotedRest_eq_done.mp h
  refine ⟨(List.suffix_cons _ t).trans (List.suffix_append _ _), ?_⟩
  rw [List.length_append, List.length_cons]
  omega

theorem advances_doubleQuotedRest : Advances doubleQuotedRest := by
  intro s cs t h
  obtain ⟨body, -, rfl⟩ := doubleQuotedRest_eq_done.mp h
  refine ⟨(List.suffix_cons _ t).trans (List.suffix_append _ _), ?_⟩
  rw [List.length_append, List.length_cons]
  omega

theorem advances_singleQuoted : Advances singleQuoted :=
  (advances_char _).bind fun _ =>
    advances_singleQuotedRest.leavesSuffix.bind fun _ => leavesSuffix_succeed _

theorem advances_doubleQuoted : Advances doubleQuoted :=
  (advances_char _).bind fun _ =>
    advances_doubleQuotedRest.leavesSuffix.bind fun _ => leavesSuffix_succeed _

theorem advances_floatLiteral : Advances floatLiteral :=
  (advances_takeWhile1 _).bind fun _ => (advances_char _).leavesSuffix.bind fun _ =>
    (advances_takeWhile1 _).leavesSuffix.bind fun _ => leavesSuffix_succeed _

theorem advances_intLiteral : Advances intLiteral := (advances_takeWhile1 _).accept _

theorem advances_wordLiteral {w : String} (hw : w.toList ≠ []) (v : Value) :
    Advances (wordLiteral w v) := (advances_keyword hw).bind fun _ => leavesSuffix_succeed _

theorem advances_literal : Advances literal :=
  advances_singleQuoted.orElse <| advances_doubleQuoted.orElse <|
    advances_floatLiteral.orElse <| advances_intLiteral.orElse <|
      (advances_wordLiteral (by decide) _).orElse <|
        (advances_wordLiteral (by decide) _).orElse (advances_wordLiteral (by decide) _)

theorem advances_symbol (ops : List BinaryOp) : Advances (symbol ops) := by
  intro s op t h
  obtain ⟨-, hs⟩ := mem_of_symbol h
  obtain ⟨c, r, hop⟩ := symbol_toList op
  have hread : (exactly op.symbol : Phrase Unit) s = .done () t := exactly_eq_done.mpr hs
  exact advances_exactly (by simp [hop]) s () t hread

theorem advances_unaryOp : Advances unaryOp :=
  ((advances_char _).bind fun _ => leavesSuffix_succeed _).orElse <|
    ((advances_keyword (by decide)).bind fun _ => leavesSuffix_succeed _).orElse
      ((advances_char _).bind fun _ => leavesSuffix_succeed _)

theorem advances_andOp : Advances andOp :=
  (advances_keyword (by decide)).orElse (advances_exactly (by decide))

theorem advances_orOp : Advances orOp :=
  (advances_keyword (by decide)).orElse (advances_exactly (by decide))

theorem advances_closing (c : Char) : Advances (closing c) :=
  leavesSuffix_blanks.bind_advances fun _ => (advances_char c).commit

theorem advances_comma : Advances comma :=
  leavesSuffix_blanks.bind_advances fun _ => advances_char _

theorem advances_signStep : Advances signStep :=
  leavesSuffix_blanks.bind_advances fun _ => advances_unaryOp

theorem advances_operandStep {ω : Type} {op : Phrase ω} {operand : Phrase Expr} (hop : Advances op)
    (hoperand : LeavesSuffix operand) : Advances (operandStep op operand) :=
  leavesSuffix_blanks.bind_advances fun _ => hop.bind fun _ =>
    LeavesSuffix.bind hoperand.commit fun _ => leavesSuffix_succeed _

theorem advances_leftGrouped {ω : Type} {op : Phrase ω} {operand : Phrase Expr} (hop : Advances op)
    (hoperand : Advances operand) (join : ω → Expr → Expr → Expr) :
    Advances (leftGrouped op operand join) :=
  hoperand.bind fun _ =>
    (advances_operandStep hop hoperand.leavesSuffix).leavesSuffix.many.bind fun _ =>
      leavesSuffix_succeed _

section Levels

variable {nested : Phrase Expr} (hn : LeavesSuffix nested)
include hn

/-- A separator with the item behind it. -/
theorem advances_further : Advances (comma >>= fun _ => nested) := advances_comma.bind fun _ => hn

theorem leavesSuffix_items : LeavesSuffix (sepBy nested comma) :=
  LeavesSuffix.sepBy hn advances_comma.leavesSuffix

theorem advances_parenthesized : Advances (parenthesized nested) :=
  (advances_char _).bind fun _ => LeavesSuffix.bind hn fun _ =>
    (advances_closing _).leavesSuffix.bind fun _ => leavesSuffix_succeed _

theorem advances_listLiteral : Advances (listLiteral nested) :=
  (advances_char _).bind fun _ => (leavesSuffix_items hn).bind fun _ =>
    (advances_closing _).leavesSuffix.bind fun _ => leavesSuffix_succeed _

theorem advances_primary : Advances (primary nested) :=
  leavesSuffix_blanks.bind_advances fun _ => .expecting
    ((advances_parenthesized hn).orElse <| (advances_listLiteral hn).orElse <|
      (advances_literal.bind fun _ => leavesSuffix_succeed _).orElse advances_var) _

theorem advances_arguments : Advances (arguments nested) :=
  leavesSuffix_blanks.bind_advances fun _ => (advances_char _).bind fun _ =>
    (leavesSuffix_items hn).bind fun _ => (advances_closing _).leavesSuffix.bind fun _ =>
      leavesSuffix_succeed _

theorem advances_member : Advances (member nested) := by
  have hname : Advances (expecting .memberName (commit name)) := advances_name.commit.expecting _
  refine (advances_char _).bind fun _ => hname.leavesSuffix.bind fun _ =>
    (advances_arguments hn).leavesSuffix.optional.bind fun args => ?_
  cases args <;> exact leavesSuffix_succeed _

theorem advances_index : Advances (index nested) :=
  (advances_char _).bind fun _ => LeavesSuffix.bind (Leads.commit hn) fun _ =>
    (advances_closing _).leavesSuffix.bind fun _ => leavesSuffix_succeed _

theorem advances_access : Advances (access nested) :=
  leavesSuffix_blanks.bind_advances fun _ => (advances_member hn).orElse (advances_index hn)

theorem advances_choiceStep : Advances (choiceStep nested) :=
  leavesSuffix_blanks.bind_advances fun _ => (advances_char _).bind fun _ =>
    .commit (LeavesSuffix.bind hn fun _ => leavesSuffix_blanks.bind fun _ =>
      (advances_char _).leavesSuffix.bind fun _ => LeavesSuffix.bind hn fun _ =>
        leavesSuffix_succeed _)

theorem advances_accessed : Advances (accessed nested) :=
  (advances_primary hn).bind fun _ => (advances_access hn).leavesSuffix.many.bind fun _ =>
    leavesSuffix_succeed _

theorem advances_signed : Advances (signed nested) := by
  have htail (ops : List UnaryOp) : Advances (signedTail nested ops) := by
    intro s e t h
    obtain ⟨operand, hoperand, -⟩ := accessed_of_signedTail nested h
    exact advances_accessed hn s operand t hoperand
  exact advances_signStep.leavesSuffix.many.bind_advances htail

/-- Each level takes what its first operand takes. -/
theorem advances_phrase (l : Level) : Advances (phrase nested l) := by
  have hproduct : Advances (product nested) :=
    advances_leftGrouped (advances_symbol _) (advances_signed hn) _
  have hsum : Advances (sum nested) := advances_leftGrouped (advances_symbol _) hproduct _
  have hcomparison : Advances (comparison nested) :=
    hsum.bind fun _ =>
      (advances_operandStep (advances_symbol comparisons)
        hsum.leavesSuffix).leavesSuffix.optional.bind
          fun other => by cases other <;> exact leavesSuffix_succeed _
  have hequality : Advances (equality nested) :=
    advances_leftGrouped (advances_symbol _) hcomparison _
  have hconjunction : Advances (conjunction nested) :=
    advances_leftGrouped advances_andOp hequality _
  have hdisjunction : Advances (disjunction nested) :=
    advances_leftGrouped advances_orOp hconjunction _
  cases l with
  | primary => exact advances_primary hn
  | accessed => exact advances_accessed hn
  | signed => exact advances_signed hn
  | product => exact hproduct
  | sum => exact hsum
  | comparison => exact hcomparison
  | equality => exact hequality
  | conjunction => exact hconjunction
  | disjunction => exact hdisjunction
  | choice =>
    exact hdisjunction.bind fun _ => (advances_choiceStep hn).leavesSuffix.optional.bind
      fun chosen => by cases chosen <;> exact leavesSuffix_succeed _

end Levels

theorem advances_expr : Advances expr := by
  refine fix_keeps fun nested hn => ?_
  exact leavesSuffix_blanks.bind_advances fun _ =>
    advances_phrase (Advances.leavesSuffix hn) .choice

theorem leavesSuffix_below (n : Nat) : LeavesSuffix (below n) := by
  intro s e t h
  unfold below at h
  split at h
  · exact advances_expr.leavesSuffix s e t h
  · simp at h

end Rulebook.Condition.Grammar
