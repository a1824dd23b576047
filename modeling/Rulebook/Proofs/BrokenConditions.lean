import Rulebook.Proofs.Combination
import Rulebook.Proofs.Grammar.Nesting

/-!
# Combining conditions that do not parse

Conditions are put between parentheses as they are. One that does not parse may close the
parenthesis in front of it and open another, or two may make one quoted text of what is between
them; then the combined text may parse where they did not. Where each condition has its parentheses
and quotes paired nothing of that kind happens: the parser comes to the end of each condition at the
parenthesis put behind it, and reads the combined text only if it reads every condition.
-/
namespace Rulebook
open Condition Condition.Grammar

variable {operator : GroupOperator}

/-- The character of which the symbol between conditions is made. -/
def GroupOperator.mark : GroupOperator → Char
  | all => '&'
  | any => '|'

/-- The conditions up to some point describe trees, and the text is what appends those behind. -/
def ReadUpTo (operator : GroupOperator) (conditions : List String) (t : List Char) : Prop :=
  ∃ read rest, conditions = read ++ rest ∧ t = appendedConditions operator rest ∧
    ∀ source ∈ read, ∃ e, Describes source e

theorem dropBlanks_appended_cons (operator : GroupOperator) (source : String)
    (sources : List String) :
    dropBlanks (appendedConditions operator (source :: sources)) =
      operator.mark :: operator.mark :: ' ' :: '(' ::
        (source.toList ++ ')' :: appendedConditions operator sources) := by
  rw [appendedConditions_cons]
  cases operator <;> exact (blanks_space _).eq_cons (by decide)

/-- What comes next is the symbol in front of another condition. -/
theorem ReadUpTo.followed {conditions : List String} {t r : List Char} {c : Char}
    (h : ReadUpTo operator conditions t) (gap : Blanks t (c :: r)) (hc : isBlank c = false) :
    ∃ read source rest, conditions = read ++ source :: rest ∧
      (∀ source ∈ read, ∃ e, Describes source e) ∧ c = operator.mark ∧
      r = operator.mark :: ' ' :: '(' ::
        (source.toList ++ ')' :: appendedConditions operator rest) := by
  obtain ⟨read, rest, rfl, rfl, described⟩ := h
  have hdrop := gap.eq_cons hc
  cases rest with
  | nil => exact nomatch hdrop
  | cons source rest =>
    rw [dropBlanks_appended_cons] at hdrop
    obtain ⟨rfl, rfl⟩ := List.cons.inj hdrop.symm
    exact ⟨read, source, rest, rfl, described, rfl, rfl⟩

/-- If nothing comes next, all conditions describe trees. -/
theorem ReadUpTo.ended {conditions : List String} {t : List Char}
    (h : ReadUpTo operator conditions t) (gap : Blanks t []) :
    ∀ source ∈ conditions, ∃ e, Describes source e := by
  obtain ⟨read, rest, rfl, rfl, described⟩ := h
  cases rest with
  | nil => rwa [List.append_nil]
  | cons source rest =>
    have hdrop := gap.dropBlanks_eq
    rw [dropBlanks_appended_cons] at hdrop
    exact nomatch hdrop

theorem ReadUpTo.eq_mark {conditions : List String} {t r : List Char} {c : Char}
    (h : ReadUpTo operator conditions t) (gap : Blanks t (c :: r)) (hc : isBlank c = false) :
    c = operator.mark := by
  obtain ⟨_, _, _, -, -, hmark, -⟩ := h.followed gap hc
  exact hmark

theorem joins_mark {l : Level} {t u : List Char} {join : Expr → Expr → Expr}
    (h : Joins l (operator.mark :: operator.mark :: t) join u) : u = t := by
  generalize hs : operator.mark :: operator.mark :: t = s at h
  cases h with
  | or word | and word =>
    obtain ⟨rfl, -⟩ := word
    cases operator <;> simp [GroupOperator.mark] at hs
  | bars | ampersands => simp_all
  | @symbol _ op _ _ =>
    cases operator <;> cases op <;> simp [GroupOperator.mark, BinaryOp.symbol] at hs

/-- Behind an operator comes the next condition. -/
theorem ReadUpTo.joined {conditions : List String} {l : Level} {t m u : List Char}
    {join : Expr → Expr → Expr} (h : ReadUpTo operator conditions t) (gap : Blanks t m)
    (op : Joins l m join u) :
    ∃ read source rest, conditions = read ++ source :: rest ∧
      (∀ source ∈ read, ∃ e, Describes source e) ∧
      dropBlanks u = '(' :: (source.toList ++ ')' :: appendedConditions operator rest) := by
  obtain ⟨c, r, rfl, -, hc, -⟩ := op.head
  obtain ⟨read, source, rest, hsplit, described, rfl, rfl⟩ := h.followed gap hc
  obtain rfl := joins_mark op
  exact ⟨read, source, rest, hsplit, described, (blanks_space _).eq_cons (by decide)⟩

/-- A phrase that begins with the first parenthesis ends between two conditions. No part of it ends
within one: a paired condition reaches just up to its own closing parenthesis. -/
theorem Condition.Grammar.Derives.readUpTo {l : Level} {s t : List Char} {e : Expr} :
    Derives l s e t → ∀ {source : String} {sources : List String},
      (∀ c ∈ source :: sources, Paired c.toList) →
      dropBlanks s = '(' :: (source.toList ++ ')' :: appendedConditions operator sources) →
      ReadUpTo operator (source :: sources) t
  | .tighter _ h, _, _, paired, hs => h.readUpTo paired hs
  | .choice condition mark _ _ _, _, _, paired, hs => by
    have hmark := (condition.readUpTo paired hs).eq_mark mark (by decide)
    exact absurd hmark (by cases operator <;> decide)
  | .joined _ first gap op second _, _, _, paired, hs => by
    obtain ⟨read, next, rest, hsplit, described, hnext⟩ :=
      (first.readUpTo paired hs).joined gap op
    have hrest : ∀ c ∈ next :: rest, Paired c.toList := fun c hc =>
      paired c (hsplit ▸ List.mem_append_right read hc)
    obtain ⟨read', rest', hsplit', ht, described'⟩ := second.readUpTo hrest hnext
    exact ⟨read ++ read', rest', by rw [hsplit, hsplit', List.append_assoc], ht,
      List.forall_mem_append.mpr ⟨described, described'⟩⟩
  | .comparison first mem gap _, _, _, paired, hs => by
    obtain ⟨c, r, hsymbol, hlevel, hc, -⟩ := comparison_head mem _
    rw [hsymbol] at gap
    obtain rfl := (first.readUpTo paired hs).eq_mark gap hc
    exact absurd hlevel (by cases operator <;> decide)
  | .signed gap sign _, _, _, _, hs => by
    rw [gap.eq_of_endsBefore sign.endsBefore] at hs
    subst hs
    exact absurd sign (not_sign (by decide) (not_word_of_head (by decide) (by decide) _))
  | .field target point _, _, _, paired, hs => by
    have hmark := (target.readUpTo paired hs).eq_mark point (by decide)
    exact absurd hmark (by cases operator <;> decide)
  | .call target point _ _ _ _, _, _, paired, hs => by
    have hmark := (target.readUpTo paired hs).eq_mark point (by decide)
    exact absurd hmark (by cases operator <;> decide)
  | .index target opening _ _, _, _, paired, hs => by
    have hmark := (target.readUpTo paired hs).eq_mark opening (by decide)
    exact absurd hmark (by cases operator <;> decide)
  | .enclosed opening inside closing, source, sources, paired, hs => by
    rw [opening.eq_cons (by decide)] at hs
    obtain ⟨-, rfl⟩ := List.cons.inj hs
    -- what is between these parentheses is paired, and so is the condition: they are the same
    obtain ⟨bs, hbs, hclosing⟩ := closing
    obtain ⟨s', hs', inside'⟩ := inside.detach hclosing
    have described : Describes (String.ofList s') e :=
      ⟨bs, by rwa [String.toList_ofList], bs, hbs, by simp⟩
    have hpaired : Paired s' := by simpa using described.paired
    obtain ⟨rfl, rfl⟩ := hpaired.eq_of_closed (paired source (by simp)) hs'.symm
    rw [String.ofList_toList] at described
    exact ⟨[source], sources, rfl, rfl, by simpa using ⟨e, described⟩⟩
  | .list opening _ _, _, _, _, hs => by
    rw [opening.eq_cons (by decide)] at hs
    exact absurd (List.cons.inj hs).1 (by decide)
  | .literal gap text, _, _, _, hs => by
    rw [gap.eq_of_endsBefore text.endsBefore] at hs
    subst hs
    exact absurd rfl (text.head_ne (by decide) (by decide) (by decide))
  | .marked mark _, _, _, _, hs => by
    rw [mark.eq_cons (by decide)] at hs
    exact absurd (List.cons.inj hs).1 (by decide)
  | .bare gap name _, _, _, _, hs => by
    obtain ⟨c, r, rfl, hc⟩ := name.head
    rw [gap.eq_of_endsBefore name.endsBefore] at hs
    exact absurd (List.cons.inj hs).1 (isNameStart_ne hc (by decide))

theorem exists_trees {conditions : List String}
    (h : ∀ source ∈ conditions, ∃ e, Describes source e) :
    ∃ es, List.Forall₂ Describes conditions es := by
  induction conditions with
  | nil => exact ⟨[], .nil⟩
  | cons source conditions ih =>
    obtain ⟨⟨e, first⟩, others⟩ := List.forall_mem_cons.mp h
    obtain ⟨es, hes⟩ := ih others
    exact ⟨e :: es, .cons first hes⟩

/-- The combined text of paired conditions is a condition if and only if all of them are. -/
theorem describes_combined_iff {conditions : List String} (hne : conditions ≠ [])
    (paired : ∀ source ∈ conditions, Paired source.toList) :
    (∃ e, Describes (String.ofList (combinedCondition operator conditions)) e) ↔
      ∀ source ∈ conditions, ∃ e, Describes source e := by
  obtain ⟨source, sources, rfl⟩ := List.exists_cons_of_ne_nil hne
  constructor
  · rintro ⟨e, t, phrase, gap⟩
    rw [String.toList_ofList, combinedCondition_cons] at phrase
    have read := phrase.readUpTo paired (dropBlanks_of_endsBefore (by simp [isBlank]))
    exact read.ended gap
  · intro h
    obtain ⟨_, _ | ⟨first, others⟩⟩ := exists_trees h
    exact ⟨_, describes_combined operator first others⟩

theorem isOk_parse {source : String} :
    (parse source).isOk = true ↔ ∃ e, Describes source e := by
  simp only [← parse_eq_ok_iff]
  cases parse source <;> simp [Except.isOk, Except.toBool]

theorem parse_eq_error {source : String} (h : (parse source).isOk = false) :
    ∃ err, parse source = .error err := by
  cases hparse : parse source with
  | error err => exact ⟨err, rfl⟩
  | ok e => simp [hparse, Except.isOk, Except.toBool] at h

/-- A rule whose condition does not parse fails under the plain evaluator. -/
theorem evaluate_of_not_parsed {rule : Rule} (h : (parse rule.condition).isOk = false) :
    ∃ err, ∀ {σ : Type} (facts : Facts) (memory : σ),
      rule.evaluate .plain facts memory = (.error (.parse err), memory) := by
  obtain ⟨err, hparse⟩ := parse_eq_error h
  refine ⟨err, fun facts memory => ?_⟩
  rw [evaluate_plain, Condition.evaluate, hparse]
  rfl

/-- Rules of which some do not parse are combined to one that does not parse either and so never
fires, unless a condition is completed by what is put around it, so that parentheses and quotes pair
up in the combined text but not in the condition. -/
theorem combine_of_broken (operator : GroupOperator) {rules : List Rule} (builder : RuleBuilder)
    (broken : ∃ rule ∈ rules, (parse rule.condition).isOk = false)
    (apart : Paired (combinedCondition operator (rules.map (·.condition))) →
      ∀ rule ∈ rules, Paired rule.condition.toList) :
    ((present? builder.draft.name).isSome → (present? builder.message).isSome →
      ∃ combined, combine operator rules builder = .ok combined) ∧
    (∀ combined, combine operator rules builder = .ok combined →
      (parse combined.condition).isOk = false ∧
      ∃ err, ∀ {σ : Type} (facts : Facts) (memory : σ),
        combined.evaluate .plain facts memory = (.error (.parse err), memory)) ∧
    ∀ group : RuleGroup, group.operator = .all → group.rules = rules →
      ∀ {σ : Type} (facts : Facts) (memory : σ),
        (group.evaluate .plain facts memory).1.triggered = false := by
  obtain ⟨rule, hrule, hbroken⟩ := broken
  have hne : rules ≠ [] := List.ne_nil_of_mem hrule
  refine ⟨exists_combine_of_named operator hne, fun combined hcombine => ?_, ?_⟩
  · have hparse : (parse combined.condition).isOk = false := by
      rw [← Bool.not_eq_true, condition_of_combine hcombine, isOk_parse]
      rintro ⟨e, described⟩
      have hcombined := described.paired
      rw [String.toList_ofList] at hcombined
      have paired : ∀ source ∈ rules.map (·.condition), Paired source.toList :=
        List.forall_mem_map.mpr (apart hcombined)
      have hall := (describes_combined_iff (by simpa using hne) paired).mp ⟨e, described⟩
      have hok := isOk_parse.mpr (hall rule.condition (List.mem_map_of_mem hrule))
      simp [hbroken] at hok
    exact ⟨hparse, evaluate_of_not_parsed hparse⟩
  · intro group hoperator hrules σ facts memory
    obtain ⟨err, hparse⟩ := parse_eq_error hbroken
    rw [← Bool.not_eq_true, triggered_plain (hrules ▸ hne), hoperator, hrules]
    intro decided
    have htrue := decided rule hrule
    simp [Condition.evaluate, hparse] at htrue

/-- Combined with `true`, a condition that lacks an operand does not parse. -/
theorem combine_of_broken_operand :
    let rules : List Rule :=
      [⟨"r", [], "r", "true", "m", "m", 100⟩, ⟨"s", [], "s", "amount >", "m", "m", 100⟩]
    let builder : RuleBuilder := { draft := { id := "x", name := some "n" }, message := some "m" }
    ((∃ rule ∈ rules, (parse rule.condition).isOk = false) ∧
        ∀ rule ∈ rules, Paired rule.condition.toList) ∧
      ∃ combined, combine .all rules builder = .ok combined ∧
        combined.condition = "(true) && (amount >)" ∧
        (parse combined.condition).isOk = false := by
  intro rules builder
  have broken : ∃ rule ∈ rules, (parse rule.condition).isOk = false :=
    ⟨rules[1], by simp [rules], by decide +kernel⟩
  have paired : ∀ rule ∈ rules, Paired rule.condition.toList := by decide
  obtain ⟨hexists, hbroken, -⟩ := combine_of_broken .all builder broken fun _ => paired
  obtain ⟨combined, hcombine⟩ := hexists (by decide) (by decide)
  refine ⟨⟨broken, paired⟩, combined, hcombine, ?_, (hbroken combined hcombine).1⟩
  rw [condition_of_combine hcombine]
  decide

/-- Built rules that do not parse are combined to ones that fire: a condition closes the parenthesis
in front of it and opens another, or two conditions quote what stands between them. Groups of these
rules do not trigger. -/
theorem combine_completed :
    let builder (source : String) : RuleBuilder := (RuleBuilder.withId "r").applyAll
      [.set (.name "n"), .condition source, .message "m"]
    let rule (source : String) : Rule :=
      ⟨"r", [.named "default" 100], "n", source, "m", "m", 100⟩
    let fresh : RuleGroup := ⟨"g", [], "g", "d", 100, .all, .empty⟩
    (∀ source ∈ ["true) && (true", "'a", "' != ''"],
      (builder source).build = .ok (rule source) ∧ (parse source).isOk = false) ∧
    (combine .all [rule "true) && (true"] (builder "x") = .ok (rule "(true) && (true)") ∧
      ((rule "(true) && (true)").evaluate .plain .empty ()).1 = .ok true ∧
      ((fresh.addRule (rule "true) && (true") 1).evaluate .plain .empty ()).1.triggered = false) ∧
    (combine .all [rule "'a", rule "' != ''"] (builder "x") = .ok (rule "('a) && (' != '')") ∧
      ((rule "('a) && (' != '')").evaluate .plain .empty ()).1 = .ok true ∧
      (((fresh.addRule (rule "'a") 1).addRule (rule "' != ''") 2).evaluate
        .plain .empty ()).1.triggered = false) := by
  intro builder rule fresh
  refine ⟨?_, ⟨by decide, by decide +kernel, by decide +kernel⟩,
    by decide, by decide +kernel, by decide +kernel⟩
  simp only [List.forall_mem_cons]
  exact ⟨⟨by decide, by decide +kernel⟩, ⟨by decide, by decide +kernel⟩,
    ⟨by decide, by decide +kernel⟩, by simp⟩

end Rulebook
