import Rulebook.Proofs.Grammar.Progress

/-!
# Reading comes to an end

The grammar refuses a nested expression that is not shorter than the text around it, and a loop ends
at a round that takes nothing. Neither ever happens. `within` is the grammar without these checks:
levels call each other and themselves, and each call and each round of a loop uses fuel. Eleven
functions call one another before a character is taken, from a whole expression to a primary, so
eleven units for every character and for the end of the text are enough. What would happen without
fuel does not matter.
-/
namespace Rulebook.Condition.Grammar
open Text Text.Parser

/-- A sign and the operand that has to be there then, or what has no sign. -/
def signedBy (operand unsigned : Phrase Expr) : Phrase Expr := do
  blanks
  match ← Parser.optional unaryOp with
  | some op => do
    let e ← commit operand
    succeed (.unary op e)
  | none => unsigned

/-- A way to repeat a parser. -/
abbrev Loop : Type 1 := ∀ α : Type, Phrase α → Phrase (List α)

namespace Loop

variable (loop : Loop)

/-- Expressions with commas between them. -/
def items (item : Phrase Expr) : Phrase (List Expr) := do
  match ← Parser.optional item with
  | none => succeed []
  | some first => do
    let others ← loop _ do
      comma
      item
    succeed (first :: others)

def arguments (nested : Phrase Expr) : Phrase (List Expr) := do
  blanks
  char '('
  let args ← loop.items nested
  closing ')'
  succeed args

def access (nested : Phrase Expr) : Phrase Access := do
  blanks
  orElse (do
    char '.'
    let n ← expecting .memberName (commit name)
    match ← Parser.optional (loop.arguments nested) with
    | some args => succeed (.call n args)
    | none => succeed (.field n)) (index nested)

def listLiteral (nested : Phrase Expr) : Phrase Expr := do
  char '\x7b'
  let items ← loop.items nested
  closing '\x7d'
  succeed (.list items)

/-- Operands with operators between them, grouped from the left. -/
def leftGrouped {ω : Type} (op : Phrase ω) (operand : Phrase Expr)
    (join : ω → Expr → Expr → Expr) : Phrase Expr := do
  let first ← operand
  let others ← loop _ (operandStep op operand)
  succeed (others.foldl (fun left (o, right) => join o left right) first)

/-- The function of a level. It reads phrases of levels by `call` and nested expressions by
`nested`. -/
def body (nested : Phrase Expr) (call : Level → Phrase Expr) : Level → Phrase Expr
  | .choice => do
    let condition ← call .disjunction
    match ← Parser.optional (choiceStep nested) with
    | some (a, b) => succeed (.ternary condition a b)
    | none => succeed condition
  | .disjunction => loop.leftGrouped orOp (call .conjunction) fun _ => .or
  | .conjunction => loop.leftGrouped andOp (call .equality) fun _ => .and
  | .equality => loop.leftGrouped (symbol [.eq, .ne]) (call .comparison) .binary
  | .comparison => do
    let left ← call .sum
    match ← Parser.optional (operandStep (symbol comparisons) (call .sum)) with
    | some (op, right) => succeed (.binary op left right)
    | none => succeed left
  | .sum => loop.leftGrouped (symbol [.add, .sub]) (call .product) .binary
  | .product => loop.leftGrouped (symbol [.mul, .div, .rem]) (call .signed) .binary
  | .signed => signedBy (call .signed) (call .accessed)
  | .accessed => do
    let target ← call .primary
    let steps ← loop _ (loop.access nested)
    succeed (steps.foldl Access.apply target)
  | .primary => do
    blanks
    expecting .expression <|
      orElse (parenthesized nested) <| orElse (loop.listLiteral nested) <|
        orElse (do
          let v ← literal
          succeed (.literal v)) var

end Loop

/-- A phrase of a level, read with so much fuel and without a look at what is left. -/
def within (spent : ∀ α : Type, Phrase α) : Nat → Level → Phrase Expr
  | 0, _ => spent Expr
  | fuel + 1, l =>
    Loop.body (fun α p => manyWithin (spent (List α)) p fuel)
      (do
        blanks
        within spent fuel .choice)
      (within spent fuel) l

/-- An expression with blanks around it, read with so much fuel. -/
def conditionWithin (spent : ∀ α : Type, Phrase α) (fuel : Nat) : Phrase Expr := do
  blanks
  let e ← within spent fuel .choice
  blanks
  succeed e

/-- The answer to a source, read with so much fuel. -/
def parseWithin (spent : ∀ α : Type, Phrase α) (fuel : Nat) (source : String) :
    Except ParseError Expr :=
  let place (rest : List Char) : Nat := source.utf8ByteSize - ParseError.byteCount rest
  match conditionWithin spent fuel source.toList with
  | .done e [] => .ok e
  | .done _ rest => .error ⟨source, place rest, []⟩
  | .failed _ rest expected => .error ⟨source, place rest, expected⟩

theorem signedTail_of_done {nested : Phrase Expr} {s t : List Char} {e : Expr}
    (h : accessed nested s = .done e t) (ops : List UnaryOp) :
    signedTail nested ops s = .done (ops.foldr .unary e) t := by
  unfold signedTail
  split
  · exact bind_of_done h _
  · exact bind_of_done (commit_eq_done.mpr h) _

theorem signedTail_of_failed {nested : Phrase Expr} {s t : List Char} {committed : Bool}
    {expected : List Expectation} (h : accessed nested s = .failed committed t expected)
    (ops : List UnaryOp) :
    signedTail nested ops s = .failed (committed || !ops.isEmpty) t expected := by
  cases ops with
  | nil =>
    rw [List.isEmpty_nil, Bool.not_true, Bool.or_false]
    exact bind_of_failed h _
  | cons op ops =>
    have hcommit : commit (accessed nested) s = .failed true t expected := by rw [commit, h]
    rw [List.isEmpty_cons, Bool.not_false, Bool.or_true]
    exact bind_of_failed hcommit _

theorem signedBy_of_done {operand unsigned : Phrase Expr} {s t : List Char} {op : UnaryOp}
    (h : signStep s = .done op t) :
    signedBy operand unsigned s = (commit operand >>= fun e => succeed (.unary op e)) t := by
  have hop : unaryOp (dropBlanks s) = .done op t := h
  rw [signedBy, blanks_bind, bind_of_done (optional_eq_done_some.mpr hop)]

theorem signedBy_of_refuses {operand unsigned : Phrase Expr} {s : List Char}
    (h : Refuses signStep s) : signedBy operand unsigned s = unsigned (dropBlanks s) := by
  have hop : Refuses unaryOp (dropBlanks s) := h
  rw [signedBy, blanks_bind, bind_of_done hop.optional_eq]

/-- Signs can also be read one by one: a sign, and behind it signs again. -/
theorem signed_eq_signedBy (nested : Phrase Expr) :
    signed nested = signedBy (signed nested) (accessed nested) := by
  funext s
  cases hs : signStep s with
  | done op r =>
    obtain ⟨ops, t, hops⟩ := neverCommits_signStep.exists_many r
    have hmany : many signStep s = .done (op :: ops) t := by
      rw [many_of_done hs (advances_signStep.length_lt hs), bind_of_done hops, succeed_apply]
    have hwhole : signed nested s = signedTail nested (op :: ops) t := bind_of_done hmany _
    have hrest : signed nested r = signedTail nested ops t := bind_of_done hops _
    rw [signedBy_of_done hs, hwhole]
    cases ha : accessed nested t with
    | done e u =>
      rw [signedTail_of_done ha] at hrest ⊢
      rw [bind_of_done (commit_eq_done.mpr hrest), List.foldr_cons, succeed_apply]
    | failed committed u expected =>
      rw [signedTail_of_failed ha] at hrest ⊢
      have hcommit : commit (signed nested) r = .failed true u expected := by rw [commit, hrest]
      rw [bind_of_failed hcommit, List.isEmpty_cons, Bool.not_false, Bool.or_true]
  | failed committed r e =>
    cases committed with
    | true => exact absurd hs (neverCommits_signStep s r e)
    | false =>
      have hwhole : signed nested s = signedTail nested [] s := bind_of_done (many_of_failed hs) _
      rw [signedBy_of_refuses ⟨r, e, hs⟩, accessed_dropBlanks, hwhole]
      cases ha : accessed nested s with
      | done e u => rw [signedTail_of_done ha, List.foldr_nil]
      | failed committed u expected => rw [signedTail_of_failed ha]; simp

/-- Below a length the loop repeats a parser that advances as `many` does. -/
def Loop.Suffices (loop : Loop) (n : Nat) : Prop :=
  ∀ m ≤ n, ∀ {α : Type} {p q : Phrase α}, AgreeBelow m p q → Advances q →
    AgreeBelow m (loop α p) (many q)

theorem agree_behindBlanks {α : Type} {n : Nat} {p q : Phrase α} (h : AgreeBelow n p q) :
    AgreeBelow n (blanks >>= fun _ => p) (blanks >>= fun _ => q) :=
  (AgreeBelow.refl n blanks).bind leavesSuffix_blanks fun _ => h

theorem operandStep_agree {ω : Type} {n : Nat} {op : Phrase ω} {operand operand' : Phrase Expr}
    (h : AgreeBelow n operand operand') (hop : LeavesSuffix op) :
    AgreeBelow n (operandStep op operand) (operandStep op operand') :=
  agree_behindBlanks <| (AgreeBelow.refl n op).bind hop fun _ => h.commit.before _

theorem choiceStep_agree {n : Nat} {inner nested : Phrase Expr} (h : AgreeBelow n inner nested)
    (hn : LeavesSuffix nested) : AgreeBelow (n + 1) (choiceStep inner) (choiceStep nested) :=
  agree_behindBlanks <| .behindChar (.commit <| h.bind hn fun _ => agree_behindBlanks <|
    (AgreeBelow.refl n _).bind (advances_char _).leavesSuffix fun _ => h.before _) _

/-- The operand of a sign is shorter, what has no sign need not be. -/
theorem signedBy_agree {n : Nat} {operand operand' unsigned unsigned' : Phrase Expr}
    (h : AgreeBelow n operand operand') (h' : AgreeBelow (n + 1) unsigned unsigned') :
    AgreeBelow (n + 1) (signedBy operand unsigned) (signedBy operand' unsigned') := by
  intro s hs
  cases hsign : signStep s with
  | done op r =>
    have hr := advances_signStep.length_lt hsign
    rw [signedBy_of_done hsign, signedBy_of_done hsign]
    exact h.commit.before _ r (by omega)
  | failed committed r e =>
    cases committed with
    | true => exact absurd hsign (neverCommits_signStep s r e)
    | false =>
      have hdrop := dropBlanks_length_le s
      rw [signedBy_of_refuses ⟨r, e, hsign⟩, signedBy_of_refuses ⟨r, e, hsign⟩]
      exact h' (dropBlanks s) (by omega)

namespace Loop

variable {loop : Loop} {n : Nat}

theorem leftGrouped_agree {ω : Type} {op : Phrase ω} {operand operand' : Phrase Expr}
    (hloop : loop.Suffices n) (h : AgreeBelow n operand operand') (hop : Advances op)
    (hoperand : LeavesSuffix operand') (join : ω → Expr → Expr → Expr) :
    AgreeBelow n (loop.leftGrouped op operand join) (Grammar.leftGrouped op operand' join) :=
  h.bind hoperand fun _ =>
    (hloop n le_rfl (operandStep_agree h hop.leavesSuffix)
      (advances_operandStep hop hoperand)).before _

variable {inner nested : Phrase Expr} (hloop : loop.Suffices n) (h : AgreeBelow n inner nested)
  (hn : LeavesSuffix nested)
include hloop h hn

theorem items_agree : AgreeBelow n (loop.items inner) (sepBy nested comma) := by
  have hfurther : AgreeBelow n (comma >>= fun _ => inner) (comma >>= fun _ => nested) :=
    (AgreeBelow.refl n comma).bind advances_comma.leavesSuffix fun _ => h
  refine h.optional.bind (LeavesSuffix.optional hn) fun o => ?_
  cases o with
  | none => exact .refl n _
  | some first => exact (hloop n le_rfl hfurther (advances_further hn)).before _

theorem arguments_agree : AgreeBelow (n + 1) (loop.arguments inner) (Grammar.arguments nested) :=
  agree_behindBlanks <| .behindChar ((items_agree hloop h hn).before _) _

theorem listLiteral_agree :
    AgreeBelow (n + 1) (loop.listLiteral inner) (Grammar.listLiteral nested) :=
  .behindChar ((items_agree hloop h hn).before _) _

theorem access_agree : AgreeBelow (n + 1) (loop.access inner) (Grammar.access nested) := by
  have hname : Advances (expecting .memberName (commit name)) := advances_name.commit.expecting _
  have harguments := (arguments_agree hloop h hn).mono (Nat.le_succ n)
  refine agree_behindBlanks (.orElse (.behindChar ?_ _) (.behindChar (h.commit.before _) _))
  exact (AgreeBelow.refl n _).bind hname.leavesSuffix fun _ => harguments.optional.before _

end Loop

/-- The function of a level does what the parser of the level does, if the levels that it calls do
and nested expressions are read alike where they are shorter. -/
theorem Loop.body_agree {loop : Loop} {n : Nat} {inner nested : Phrase Expr}
    (hloop : loop.Suffices (n + 1)) (h : AgreeBelow n inner nested) (hn : LeavesSuffix nested)
    {call : Level → Phrase Expr} {l : Level}
    (htighter : ∀ l', l.tighter = some l' → AgreeBelow (n + 1) (call l') (phrase nested l'))
    (hsame : AgreeBelow n (call l) (phrase nested l)) :
    AgreeBelow (n + 1) (loop.body inner call l) (phrase nested l) := by
  have hrest : loop.Suffices n := fun m hm => hloop m (by omega)
  have hphrase (l : Level) : LeavesSuffix (phrase nested l) := (advances_phrase hn l).leavesSuffix
  cases l with
  | choice =>
    have hstep := choiceStep_agree h hn
    exact (htighter _ rfl).bind (hphrase _) fun _ => hstep.optional.before _
  | disjunction =>
    exact leftGrouped_agree hloop (htighter _ rfl) advances_orOp (hphrase _) fun _ => .or
  | conjunction =>
    exact leftGrouped_agree hloop (htighter _ rfl) advances_andOp (hphrase _) fun _ => .and
  | equality => exact leftGrouped_agree hloop (htighter _ rfl) (advances_symbol _) (hphrase _) _
  | comparison =>
    have hstep := operandStep_agree (htighter _ rfl) (advances_symbol comparisons).leavesSuffix
    exact (htighter _ rfl).bind (hphrase _) fun _ => hstep.optional.before _
  | sum => exact leftGrouped_agree hloop (htighter _ rfl) (advances_symbol _) (hphrase _) _
  | product => exact leftGrouped_agree hloop (htighter _ rfl) (advances_symbol _) (hphrase _) _
  | signed =>
    show AgreeBelow (n + 1) _ (signed nested)
    rw [signed_eq_signedBy]
    exact signedBy_agree hsame (htighter _ rfl)
  | accessed =>
    have hsteps := hloop _ le_rfl (access_agree hrest h hn) (advances_access hn)
    exact (htighter _ rfl).bind (hphrase _) fun _ => AgreeBelow.before hsteps _
  | primary =>
    have hparenthesized : AgreeBelow (n + 1) (parenthesized inner) (parenthesized nested) :=
      .behindChar (h.before _) _
    exact agree_behindBlanks <| .expecting (hparenthesized.orElse <|
      (listLiteral_agree hrest h hn).orElse (.refl _ _)) _

theorem suffices_manyWithin (spent : ∀ α : Type, Phrase α) (rounds : Nat) :
    Loop.Suffices (fun α p => manyWithin (spent (List α)) p rounds) rounds :=
  fun _ hm _ _ _ h hq => h.manyWithin hq hm _

theorem below_agree (n : Nat) : AgreeBelow n (below n) expr := fun _ hs => if_pos hs

/-- A level needs eleven units of fuel for every character, and eleven less its rank besides. Nested
expressions may be read in any way that agrees with `expr` where they are shorter. -/
theorem within_agree (spent : ∀ α : Type, Phrase α) {fuel n : Nat} {l : Level}
    (enough : 11 * (n + 1) ≤ fuel + l.rank) {nested : Phrase Expr} (hn : LeavesSuffix nested)
    (h : AgreeBelow n nested expr) :
    AgreeBelow (n + 1) (within spent fuel l) (phrase nested l) := by
  induction fuel generalizing n l nested with
  | zero =>
    have hrank : l.rank ≤ 9 := l.rank_le_primary
    omega
  | succ fuel ih =>
    have hrank : l.rank ≤ 9 := l.rank_le_primary
    have hloop : Loop.Suffices (fun α p => manyWithin (spent (List α)) p fuel) (n + 1) :=
      fun m hm => suffices_manyWithin spent fuel m (by omega)
    -- a nested expression starts again at the loosest level, but on a shorter text
    have hinner : AgreeBelow n (do blanks; within spent fuel .choice) nested := by
      intro s hs
      have hdrop := dropBlanks_length_le s
      have hread := ih (n := s.length) (l := .choice) (by omega) (leavesSuffix_below _)
        (below_agree _) (dropBlanks s) (by omega)
      rw [blanks_bind, hread, phrase_dropBlanks, ← expr_apply, h s hs]
    refine Loop.body_agree hloop hinner hn (fun l' hl => ih ?_ hn h) ?_
    · have := Level.rank_of_tighter hl
      omega
    · cases n with
      | zero => exact fun s hs => absurd hs (Nat.not_lt_zero _)
      | succ n => exact ih (by omega) hn (h.mono (Nat.le_succ n))

/-- With so much fuel a phrase is read as it is with the checks. -/
theorem within_eq_expr (spent : ∀ α : Type, Phrase α) {fuel : Nat} {s : List Char}
    (enough : 11 * (s.length + 1) ≤ fuel) : within spent fuel .choice s = expr s := by
  have hread := within_agree spent (l := .choice) (Nat.le_add_right_of_le enough)
    (leavesSuffix_below _) (below_agree s.length) s (Nat.lt_succ_self _)
  rw [hread, ← expr_apply]

/-- No nested expression is refused for its length: an expression is one layer over expressions. -/
theorem expr_eq_layer : expr = layer expr := by
  funext s
  let spent : ∀ α : Type, Phrase α := fun _ s => .failed true s []
  have enough : 11 * (s.length + 1) ≤ 11 * (s.length + 1) + Level.choice.rank :=
    Nat.le_add_right _ _
  have hread := within_agree spent enough advances_expr.leavesSuffix (.refl s.length expr) s
    (Nat.lt_succ_self _)
  rw [layer_apply, ← within_eq_expr spent le_rfl, hread]
  rfl

theorem expr_dropBlanks (s : List Char) : expr (dropBlanks s) = expr s := by
  rw [expr_eq_layer, layer_apply, layer_apply]
  exact phrase_dropBlanks expr .choice s

theorem conditionWithin_eq (spent : ∀ α : Type, Phrase α) {fuel : Nat} {s : List Char}
    (enough : 11 * (s.length + 1) ≤ fuel) : conditionWithin spent fuel s = condition s := by
  have hdrop := dropBlanks_length_le s
  have hread : within spent fuel .choice (dropBlanks s) = expr s :=
    (within_eq_expr spent (by omega)).trans (expr_dropBlanks s)
  rw [conditionWithin, condition, blanks_bind]
  cases hs : expr s with
  | done e t => rw [bind_of_done (hread.trans hs), bind_of_done hs]
  | failed committed t expected => rw [bind_of_failed (hread.trans hs), bind_of_failed hs]

theorem parseWithin_eq (spent : ∀ α : Type, Phrase α) {fuel : Nat} {source : String}
    (enough : 11 * (source.length + 1) ≤ fuel) : parseWithin spent fuel source = parse source := by
  have hread : conditionWithin spent fuel source.toList = condition source.toList :=
    conditionWithin_eq spent (by rwa [String.length_toList])
  rcases hs : condition source.toList with ⟨e, _ | _⟩ | _ <;>
    simp only [parseWithin, parse, hread, hs]

/-- The parsers that the grammar is made of. -/
inductive Constituent : ∀ {α : Type}, Phrase α → Prop
  | blanks : Constituent blanks
  | name : Constituent name
  | keyword (w : String) : Constituent (keyword w)
  | var : Constituent var
  | singleQuoted : Constituent singleQuoted
  | doubleQuoted : Constituent doubleQuoted
  | floatLiteral : Constituent floatLiteral
  | intLiteral : Constituent intLiteral
  | literal : Constituent literal
  | symbol (ops : List BinaryOp) : Constituent (symbol ops)
  | unaryOp : Constituent unaryOp
  | andOp : Constituent andOp
  | orOp : Constituent orOp
  | parenthesized : Constituent (parenthesized expr)
  | items : Constituent (sepBy expr comma)
  | listLiteral : Constituent (listLiteral expr)
  | arguments : Constituent (arguments expr)
  | member : Constituent (member expr)
  | index : Constituent (index expr)
  | access : Constituent (access expr)
  | phrase (l : Level) : Constituent (phrase expr l)
  | expr : Constituent expr
  | condition : Constituent condition

theorem Constituent.leavesSuffix {α : Type} {p : Phrase α} (h : Constituent p) :
    LeavesSuffix p := by
  have hexpr : LeavesSuffix Grammar.expr := advances_expr.leavesSuffix
  cases h with
  | blanks => exact leavesSuffix_blanks
  | name => exact advances_name.leavesSuffix
  | keyword w => exact leavesSuffix_keyword w
  | var => exact advances_var.leavesSuffix
  | singleQuoted => exact advances_singleQuoted.leavesSuffix
  | doubleQuoted => exact advances_doubleQuoted.leavesSuffix
  | floatLiteral => exact advances_floatLiteral.leavesSuffix
  | intLiteral => exact advances_intLiteral.leavesSuffix
  | literal => exact advances_literal.leavesSuffix
  | symbol ops => exact (advances_symbol ops).leavesSuffix
  | unaryOp => exact advances_unaryOp.leavesSuffix
  | andOp => exact advances_andOp.leavesSuffix
  | orOp => exact advances_orOp.leavesSuffix
  | parenthesized => exact (advances_parenthesized hexpr).leavesSuffix
  | items => exact leavesSuffix_items hexpr
  | listLiteral => exact (advances_listLiteral hexpr).leavesSuffix
  | arguments => exact (advances_arguments hexpr).leavesSuffix
  | member => exact (advances_member hexpr).leavesSuffix
  | index => exact (advances_index hexpr).leavesSuffix
  | access => exact (advances_access hexpr).leavesSuffix
  | phrase l => exact (advances_phrase hexpr l).leavesSuffix
  | expr => exact hexpr
  | condition =>
    exact hexpr.bind fun _ => leavesSuffix_blanks.bind fun _ => leavesSuffix_succeed _

/-- What the grammar repeats: a sign, an operator with its operand, an access, and a comma with an
item of a list or an argument behind it. A comparison has one operator with its operand at most. -/
inductive Repeated : ∀ {α : Type}, Phrase α → Prop
  | sign : Repeated signStep
  | factor : Repeated (operandStep (symbol [.mul, .div, .rem]) (signed expr))
  | summand : Repeated (operandStep (symbol [.add, .sub]) (product expr))
  | compared : Repeated (operandStep (symbol comparisons) (sum expr))
  | equated : Repeated (operandStep (symbol [.eq, .ne]) (comparison expr))
  | conjunct : Repeated (operandStep andOp (equality expr))
  | disjunct : Repeated (operandStep orOp (conjunction expr))
  | access : Repeated (access expr)
  | further : Repeated (comma >>= fun _ => expr)

theorem Repeated.advances {α : Type} {p : Phrase α} (h : Repeated p) : Advances p := by
  have hexpr : LeavesSuffix expr := advances_expr.leavesSuffix
  have hphrase (l : Level) : LeavesSuffix (phrase expr l) := (advances_phrase hexpr l).leavesSuffix
  cases h with
  | sign => exact advances_signStep
  | factor => exact advances_operandStep (advances_symbol _) (hphrase .signed)
  | summand => exact advances_operandStep (advances_symbol _) (hphrase .product)
  | compared => exact advances_operandStep (advances_symbol _) (hphrase .sum)
  | equated => exact advances_operandStep (advances_symbol _) (hphrase .comparison)
  | conjunct => exact advances_operandStep advances_andOp (hphrase .equality)
  | disjunct => exact advances_operandStep advances_orOp (hphrase .conjunction)
  | access => exact advances_access hexpr
  | further => exact advances_further hexpr

/-- What is read is always in front of what is left, and expressions, the levels and whatever is
repeated take at least one character. So an expression may nest expressions without a look at their
length, and reading without any such look comes to the same answer with fuel that grows linearly
with the source, whatever would be answered without fuel. -/
theorem reading_ends :
    (∀ {α : Type} {p : Phrase α}, Constituent p → LeavesSuffix p) ∧
    Advances expr ∧ (∀ l : Level, Advances (phrase expr l)) ∧
    (∀ {α : Type} {p : Phrase α}, Repeated p → Advances p) ∧
    expr = layer expr ∧
    ∀ (spent : ∀ α : Type, Phrase α) (source : String) (fuel : Nat),
      11 * (source.length + 1) ≤ fuel → parseWithin spent fuel source = parse source :=
  ⟨Constituent.leavesSuffix, advances_expr, advances_phrase advances_expr.leavesSuffix,
    Repeated.advances, expr_eq_layer, fun spent _ _ enough => parseWithin_eq spent enough⟩

/-- Accesses and lists repeat and nest. -/
theorem reading_ends_nested :
    let source := "-a.f(\x7b1, 'x'\x7d)[0] ? b : not c"
    let spent : ∀ α : Type, Phrase α := fun _ s => .failed true s []
    Constituent (listLiteral expr) ∧ LeavesSuffix (listLiteral expr) ∧ Repeated (access expr) ∧
      Advances (access expr) ∧ 11 * (source.length + 1) ≤ 341 ∧
      parseWithin spent 341 source = parse source := by
  intro source spent
  obtain ⟨hconstituents, -, -, hrepeated, -, hfuel⟩ := reading_ends
  have enough : 11 * (source.length + 1) ≤ 341 := by decide
  exact ⟨.listLiteral, hconstituents .listLiteral, .access, hrepeated .access, enough,
    hfuel spent source 341 enough⟩

end Rulebook.Condition.Grammar
