import Mathlib.Data.List.Forall2
import Rulebook.Json.Codec
import Rulebook.Proofs.Text.Refusal

/-!
# JSON texts that are read

Every character of a string is written in one of three ways: behind a backslash as a letter, as four
digits, or as it is. Each is scanned as one piece that stands for the character, so the text of any
string reads as that string, and nothing behind its closing quote is looked at.

The first character of a value tells which alternative reads it, since every other one refuses it
there. Words, strings and integers are read for themselves. An array or an object is read if its
parts are: they stand between commas and end at a bracket, and neither is a character that a number
could go on with.
-/
namespace Rulebook.Json

open Text

namespace Quoted

/-- The piece contributes the character, whatever pieces come after it. -/
def Piece.StandsFor (p : Piece) (c : Char) : Prop :=
  ∀ ps, assemble (p :: ps) = (assemble ps).map (c :: ·)

theorem Piece.standsFor_char (c : Char) : (Piece.char c).StandsFor c := fun _ => rfl

/-- Code units that are no halves of a pair are characters. -/
theorem Piece.standsFor_unit {c : Char} (h : c.toNat < 0xD800) :
    (Piece.unit c.toNat).StandsFor c := by
  intro ps
  have high : isHighSurrogate c.toNat = false := by simp [isHighSurrogate]; omega
  have low : isLowSurrogate c.toNat = false := by simp [isLowSurrogate]; omega
  rw [assemble.eq_def]
  simp [high, low]

/-- The digits of a control character. -/
theorem hexDigits_eq {n : Nat} (h : n < 32) :
    hexDigits n = ['0', '0', (n / 16).digitChar, (n % 16).digitChar] := by
  have small : ∀ n : Fin 32,
      hexDigits n = ['0', '0', (n.val / 16).digitChar, (n.val % 16).digitChar] := by decide
  exact small ⟨n, h⟩

theorem codeUnit?_digits {n : Nat} (h : n < 32) :
    codeUnit? '0' '0' (n / 16).digitChar (n % 16).digitChar = some n := by
  have small : ∀ n : Fin 32,
      codeUnit? '0' '0' (n.val / 16).digitChar (n.val % 16).digitChar = some n.val := by decide
  exact small ⟨n, h⟩

/-- The three ways to write a character. -/
inductive Written (c : Char) : List Char → Prop
  | letter {e : Char} (h : escaped? e = some c) : Written c ['\\', e]
  | digits (h : c < ' ') : Written c ('\\' :: 'u' :: hexDigits c.toNat)
  | plain (quote : c ≠ '\x22') (slash : c ≠ '\\') (control : ¬ c < ' ') : Written c [c]

theorem written_encodeChar (c : Char) : Written c (encodeChar c) := by
  unfold encodeChar
  iterate 7
    split
    · next h =>
      subst h
      exact .letter (by decide)
  split
  · next h => exact .digits h
  · next hquote hslash _ _ _ _ _ hcontrol => exact .plain hquote hslash hcontrol

theorem scan_letter {e c : Char} (h : escaped? e = some c) (s : List Char) :
    scan ('\\' :: e :: s) = withPiece (some (.char c)) (scan s) := by
  have hu : e ≠ 'u' := by
    rintro rfl
    simp [escaped?] at h
  rw [scan.eq_4 e s fun _ _ _ _ _ he _ => hu he, h, Option.map_some]

theorem scan_plain {c : Char} (quote : c ≠ '\x22') (slash : c ≠ '\\') (control : ¬ c < ' ')
    (s : List Char) : scan (c :: s) = withPiece (some (.char c)) (scan s) := by
  rw [scan.eq_5 c s (fun h _ => slash h) (fun _ _ _ _ _ h _ => slash h) (fun _ _ h _ => slash h),
    if_neg quote, if_neg control]

/-- What is written for a character is scanned as one piece, which stands for it. -/
theorem Written.scan_eq {c : Char} {w : List Char} (h : Written c w) (s : List Char) :
    ∃ p : Piece, p.StandsFor c ∧ scan (w ++ s) = withPiece (some p) (scan s) := by
  cases h with
  | letter h => exact ⟨.char c, Piece.standsFor_char c, scan_letter h s⟩
  | digits h =>
    have hsmall : c.toNat < 32 := h
    refine ⟨.unit c.toNat, Piece.standsFor_unit (by omega), ?_⟩
    rw [hexDigits_eq hsmall]
    simp only [List.cons_append, List.nil_append]
    rw [scan.eq_3, codeUnit?_digits hsmall, Option.map_some]
  | plain quote slash control =>
    exact ⟨.char c, Piece.standsFor_char c, scan_plain quote slash control s⟩

theorem exists_pieces (cs rest : List Char) : ∃ ps,
    scan (cs.flatMap encodeChar ++ '\x22' :: rest) = some (ps, rest) ∧ assemble ps = some cs := by
  induction cs with
  | nil => exact ⟨[], by simp [scan], rfl⟩
  | cons c cs ih =>
    obtain ⟨ps, hscan, hps⟩ := ih
    obtain ⟨p, hp, hpscan⟩ :=
      (written_encodeChar c).scan_eq (cs.flatMap encodeChar ++ '\x22' :: rest)
    refine ⟨p :: ps, ?_, by rw [hp ps, hps, Option.map_some]⟩
    rw [List.flatMap_cons, List.append_assoc, hpscan, hscan]
    rfl

/-- A written string is read back, and all that follows it is left. -/
theorem quoted_encode (s : String) (rest : List Char) :
    quoted (encode s.toList ++ rest) = .done (some s) rest := by
  obtain ⟨ps, hscan, hps⟩ := exists_pieces s.toList rest
  simp [quoted, encode, hscan, hps]

end Quoted

open Decimal Text.Parser

/-- The numeral of an integer: no point, no exponent. -/
def Numeral.ofInt (n : Int) : Numeral := ⟨decide (n < 0), natChars n.natAbs, [], none⟩

namespace Reader

/-- The reader that stands inside a text of that length. -/
def below (n : Nat) : Reader Tree := fun s =>
  if s.length < n then value s else .failed false s []

theorem value_eq (s : List Char) : value s = layer (below s.length) s := fix_apply layer s

theorem blanks_eq {s : List Char} (h : EndsBefore isBlank s) : blanks s = .done () s :=
  bind_of_done (takeWhile_eq_done.mpr ⟨(List.nil_append s).symm, by simp, h⟩) _

theorem token_eq {c : Char} (hc : isBlank c = false) (s : List Char) :
    token c (c :: s) = .done () s := by
  rw [token, bind_of_done (blanks_eq (endsBefore_cons.mpr hc))]
  exact char_eq_done.mpr rfl

theorem refuses_token {c d : Char} (hd : isBlank d = false) (hne : d ≠ c) (s : List Char) :
    Refuses (token c) (d :: s) :=
  refuses_bind (blanks_eq (endsBefore_cons.mpr hd)) (refuses_char (by simpa using hne))

/-- The alternatives that begin with no letter. -/
def unworded (nested : Reader Tree) : Reader Tree :=
  orElse (do
    let s ← Quoted.quoted
    succeed (.string s)) <|
  orElse (do
    let n ← numeral
    succeed (.number n)) <|
  orElse (array nested) (object nested)

theorem layer_eq (nested : Reader Tree) {s : List Char} (h : EndsBefore isBlank s) :
    layer nested s =
      orElse (word "null" .null) (orElse (word "true" (.bool true))
        (orElse (word "false" (.bool false)) (unworded nested))) s := bind_of_done (blanks_eq h) _

theorem refuses_word {w : String} {c : Char} (hw : w.toList.head? = some c) (tree : Tree)
    {s : List Char} (h : s.head? ≠ some c) : Refuses (word w tree) s := by
  refine Refuses.bind ((neverCommits_exactly w).refuses fun _ t hs => h ?_) _
  obtain ⟨cs, hcs⟩ := List.head?_eq_some_iff.mp hw
  simp [exactly_eq_done.mp hs, hcs]

theorem refuses_quoted {c : Char} (h : c ≠ '\x22') (s : List Char) :
    Refuses Quoted.quoted (c :: s) := ⟨c :: s, [], by simp [Quoted.quoted, h]⟩

/-- Characters that a number begins with. -/
def opensNumeral (c : Char) : Bool := c = '-' || c.isDigit

theorem refuses_numeral {c : Char} (h : opensNumeral c = false) (s : List Char) :
    Refuses numeral (c :: s) := by
  obtain ⟨hsign, hdigit⟩ : c ≠ '-' ∧ c.isDigit = false := by simpa [opensNumeral] using h
  have hwhole : Refuses wholeDigits (c :: s) := by
    refine ((neverCommits_takeWhile1 Char.isDigit).accept _).refuses fun ds t h => ?_
    obtain ⟨ds, h, -⟩ := accept_eq_done.mp h
    simp [takeWhile1, hdigit] at h
  exact refuses_bind (refuses_char (by simpa using hsign)).optional_eq (hwhole.bind _)

theorem refuses_array (nested : Reader Tree) {c : Char} (h : c ≠ '[') (s : List Char) :
    Refuses (array nested) (c :: s) := (refuses_char (by simpa using h)).bind _

theorem refuses_object (nested : Reader Tree) {c : Char} (h : c ≠ '\x7b') (s : List Char) :
    Refuses (object nested) (c :: s) := (refuses_char (by simpa using h)).bind _

/-- A character that begins no word leaves the other alternatives. -/
theorem value_cons {c : Char} (hblank : isBlank c = false) (hword : c ∉ ['n', 't', 'f'])
    (s : List Char) : value (c :: s) = unworded (below (s.length + 1)) (c :: s) := by
  obtain ⟨hn, ht, hf⟩ : c ≠ 'n' ∧ c ≠ 't' ∧ c ≠ 'f' := by simpa using hword
  rw [value_eq, layer_eq _ (endsBefore_cons.mpr hblank),
    (refuses_word (c := 'n') (by decide) _ (by simpa using hn)).orElse_eq,
    (refuses_word (c := 't') (by decide) _ (by simpa using ht)).orElse_eq,
    (refuses_word (c := 'f') (by decide) _ (by simpa using hf)).orElse_eq, List.length_cons]

theorem refuses_value_bracket (s : List Char) : Refuses value (']' :: s) := by
  have whole : Refuses (unworded (below (s.length + 1))) (']' :: s) :=
    ((refuses_quoted (by decide) s).bind _).orElse <|
      ((refuses_numeral (by decide) s).bind _).orElse <|
      (refuses_array _ (by decide) s).orElse (refuses_object _ (by decide) s)
  obtain ⟨r, e, h⟩ := whole
  exact ⟨r, e, by rw [value_cons (by decide) (by decide), h]⟩

/-- Characters that a number could go on with. -/
def continuesNumeral (c : Char) : Bool := c.isDigit || c = '.' || c = 'e' || c = 'E'

/-- In front of anything that no number goes on with, the text is read as the tree. -/
def Reads (cs : List Char) (tree : Tree) : Prop :=
  ∀ rest, EndsBefore continuesNumeral rest → value (cs ++ rest) = .done tree rest

theorem word_eq {w : String} {cs : List Char} (h : w.toList = cs) (tree : Tree)
    (rest : List Char) : word w tree (cs ++ rest) = .done tree rest :=
  bind_succeed (a := ()) (exactly_eq_done.mpr (by rw [h])) tree

theorem reads_null : Reads ['n', 'u', 'l', 'l'] .null := by
  intro rest _
  rw [value_eq, layer_eq _ (by simp [isBlank])]
  exact orElse_of_done (word_eq (by decide) _ rest) _

theorem reads_boolChars (b : Bool) : Reads (boolChars b) (.bool b) := by
  intro rest _
  have hblank : EndsBefore isBlank (boolChars b ++ rest) := by cases b <;> simp [boolChars, isBlank]
  have hnull : (boolChars b ++ rest).head? ≠ some 'n' := by cases b <;> simp [boolChars]
  rw [value_eq, layer_eq _ hblank, (refuses_word (c := 'n') (by decide) _ hnull).orElse_eq]
  cases b with
  | true => exact orElse_of_done (word_eq (by decide) _ rest) _
  | false =>
    rw [(refuses_word (c := 't') (by decide) _ (by simp [boolChars])).orElse_eq]
    exact orElse_of_done (word_eq (by decide) _ rest) _

theorem reads_string (s : String) : Reads (Quoted.encode s.toList) (.string (some s)) := by
  intro rest _
  have whole := bind_of_done (Quoted.quoted_encode s rest)
    (fun s => (succeed (.string s) : Reader Tree))
  exact (value_cons (by decide) (by decide) _).trans (orElse_of_done whole _)

theorem wholeDigits_natChars (n : Nat) {rest : List Char} (h : EndsBefore Char.isDigit rest) :
    wholeDigits (natChars n ++ rest) = .done (natChars n) rest := by
  refine accept_eq_done.mpr ⟨natChars n, takeWhile1_eq_done.mpr
    ⟨natChars_ne_nil n, rfl, fun _ => isDigit_of_mem_natChars, h⟩, if_neg ?_⟩
  rintro ⟨hzero, hlength⟩
  obtain rfl := (head?_natChars_eq_zero n).mp hzero
  exact hlength rfl

theorem natChars_eq_cons (n : Nat) : ∃ d ds, natChars n = d :: ds ∧ d.isDigit = true := by
  obtain ⟨d, ds, hds⟩ := List.exists_cons_of_ne_nil (natChars_ne_nil n)
  exact ⟨d, ds, hds, isDigit_of_mem_natChars (n := n) (by simp [hds])⟩

theorem intChars_eq_cons (n : Int) : ∃ c cs, intChars n = c :: cs ∧ opensNumeral c = true := by
  unfold intChars
  split
  · exact ⟨'-', _, rfl, rfl⟩
  · obtain ⟨d, ds, hds, hd⟩ := natChars_eq_cons n.natAbs
    exact ⟨d, ds, hds, by simp [opensNumeral, hd]⟩

/-- Behind an integer there is neither a fraction nor an exponent. -/
theorem numeral_intChars (n : Int) {rest : List Char} (h : EndsBefore continuesNumeral rest) :
    numeral (intChars n ++ rest) = .done (.ofInt n) rest := by
  have sign : (optional (char '-') : Reader (Option Unit)) (intChars n ++ rest) =
      .done (if n < 0 then some () else none) (natChars n.natAbs ++ rest) := by
    unfold intChars
    split
    · exact optional_eq_done_some.mpr (char_eq_done.mpr rfl)
    · obtain ⟨d, ds, hds, hd⟩ := natChars_eq_cons n.natAbs
      have hne : d ≠ '-' := ne_of_apply_ne Char.isDigit (by rw [hd]; decide)
      exact (refuses_char (by simpa [hds] using hne)).optional_eq
  have whole := wholeDigits_natChars n.natAbs (h.mono fun c hc => by simp [continuesNumeral, hc])
  have fraction : fractionDigits rest = .done [] rest :=
    bind_of_done (refuses_char (h.head?_ne (by decide))).optional_eq _
  have power : exponent rest = .done none rest :=
    bind_of_done ((refuses_char (h.head?_ne (by decide))).orElse
      (refuses_char (h.head?_ne (by decide)))).optional_eq _
  rw [numeral, bind_of_done sign, bind_of_done whole, bind_of_done fraction, bind_of_done power]
  split <;> simp [Numeral.ofInt, *]

theorem reads_intChars (n : Int) : Reads (intChars n) (.number (.ofInt n)) := by
  intro rest h
  have whole := bind_of_done (numeral_intChars n h) (fun n => (succeed (.number n) : Reader Tree))
  obtain ⟨c, cs, hcs, hc⟩ := intChars_eq_cons n
  have unlike : ∀ {d : Char}, opensNumeral d = false → c ≠ d := fun hd =>
    ne_of_apply_ne opensNumeral (by rw [hc, hd]; decide)
  have hblank : isBlank c = false := by simp (disch := decide) [isBlank, unlike]
  have hword : c ∉ ['n', 't', 'f'] := by simp (disch := decide) [unlike]
  rw [hcs, List.cons_append] at whole ⊢
  rw [value_cons hblank hword, unworded,
    ((refuses_quoted (unlike (by decide)) _).bind _).orElse_eq]
  exact orElse_of_done whole _

/-- Each part behind the first stands behind a comma. -/
theorem intercalate_cons (first : List Char) (others : List (List Char)) :
    List.intercalate [','] (first :: others) = first ++ others.flatMap (',' :: ·) := by
  induction others generalizing first with
  | nil => simp [List.intercalate]
  | cons c cs ih =>
    have tail := ih c
    simp only [List.intercalate, List.flatMap_cons] at tail ⊢
    rw [List.intersperse_cons_cons, List.flatten_cons, List.flatten_cons, tail]
    simp

/-- The parser reads the text inside a longer text of that length. -/
def ReadsBelow {α : Type} (n : Nat) (p : Reader α) (cs : List Char) (a : α) : Prop :=
  ∀ rest, (cs ++ rest).length < n → EndsBefore continuesNumeral rest →
    p (cs ++ rest) = .done a rest

theorem Reads.below {cs : List Char} {tree : Tree} (h : Reads cs tree) (n : Nat) :
    ReadsBelow n (below n) cs tree := by
  intro rest hlength hrest
  rw [Reader.below, if_pos hlength, h rest hrest]

section Parts

variable {α : Type} {n : Nat} {item : Reader α} {close : Char}

/-- What closes the parts is no comma, and no number goes on with it. -/
structure Closes (close : Char) : Prop where
  comma : close ≠ ','
  blank : isBlank close = false
  numeral : continuesNumeral close = false

theorem Closes.endsBefore (hclose : Closes close) (others : List (List Char)) (rest : List Char) :
    EndsBefore continuesNumeral (others.flatMap (',' :: ·) ++ close :: rest) := by
  cases others with
  | nil => exact endsBefore_cons.mpr hclose.numeral
  | cons c cs => exact endsBefore_cons.mpr (by decide)

theorem many_parts (hclose : Closes close) (rest : List Char) {others : List (List Char)}
    {as : List α} (parts : List.Forall₂ (ReadsBelow n item) others as)
    (hlength : (others.flatMap (',' :: ·) ++ close :: rest).length ≤ n) :
    (many do
      token ','
      item) (others.flatMap (',' :: ·) ++ close :: rest) = .done as (close :: rest) := by
  induction parts with
  | nil => exact ((refuses_token hclose.blank hclose.comma rest).bind _).many_eq
  | @cons c a cs as first _ ih =>
    -- a part ends where a comma or a bracket follows, whatever else is behind it
    have behind := hclose.endsBefore cs rest
    generalize htail : cs.flatMap (',' :: ·) ++ close :: rest = tail at ih behind
    have hwhole : (c :: cs).flatMap (',' :: ·) ++ close :: rest = ',' :: (c ++ tail) := by
      simp [← htail]
    rw [hwhole] at hlength ⊢
    simp only [List.length_cons, List.length_append] at hlength
    have one : (do
        token ','
        item) (',' :: (c ++ tail)) = .done a tail := by
      rw [bind_of_done (token_eq (by decide) _)]
      exact first tail (by rw [List.length_append]; omega) behind
    have shorter : tail.length < (',' :: (c ++ tail)).length := by
      rw [List.length_cons, List.length_append]
      omega
    rw [many_of_done one shorter, bind_of_done (ih (by omega)), succeed_apply]

/-- Parts between commas are read one after the other, up to what closes them. -/
theorem sepBy_parts (hclose : Closes close) (rest : List Char) {texts : List (List Char)}
    {as : List α} (parts : List.Forall₂ (ReadsBelow n item) texts as)
    (hlength : (List.intercalate [','] texts ++ close :: rest).length < n)
    (refuses : Refuses item (close :: rest)) :
    sepBy item (token ',') (List.intercalate [','] texts ++ close :: rest) =
      .done as (close :: rest) := by
  cases parts with
  | nil => exact bind_of_done refuses.optional_eq _
  | @cons c a cs as first others =>
    have behind := hclose.endsBefore cs rest
    rw [intercalate_cons, List.append_assoc] at hlength ⊢
    have front := first _ hlength behind
    rw [List.length_append] at hlength
    rw [sepBy, bind_of_done (optional_eq_done_some.mpr front)]
    exact bind_of_done (many_parts hclose rest others (by omega)) _

/-- Parts between brackets are read as what is made of them. -/
theorem enclosed_parts (hclose : Closes close) {texts : List (List Char)} {as : List α}
    (parts : List.Forall₂ (ReadsBelow n item) texts as) {rest : List Char}
    (hlength : (List.intercalate [','] texts ++ close :: rest).length < n)
    (refuses : Refuses item (close :: rest)) (start : Char) (tree : List α → Tree) :
    (do
      char start
      let as ← sepBy item (token ',')
      token close
      succeed (tree as)) (start :: (List.intercalate [','] texts ++ close :: rest)) =
      .done (tree as) rest := by
  rw [bind_of_done (a := ()) (char_eq_done.mpr rfl),
    bind_of_done (sepBy_parts hclose rest parts hlength refuses)]
  exact bind_succeed (token_eq hclose.blank rest) _

end Parts

theorem reads_array {texts : List (List Char)} {trees : List Tree}
    (parts : List.Forall₂ Reads texts trees) :
    Reads ('[' :: (List.intercalate [','] texts ++ [']'])) (.array trees) := by
  intro rest _
  have hshape : '[' :: (List.intercalate [','] texts ++ [']']) ++ rest =
      '[' :: (List.intercalate [','] texts ++ ']' :: rest) := by simp
  generalize hn : (List.intercalate [','] texts ++ ']' :: rest).length + 1 = n
  have shorter : (']' :: rest).length < n := by
    rw [← hn, List.length_append]
    omega
  have refuses : Refuses (below n) (']' :: rest) := by
    obtain ⟨r, e, h⟩ := refuses_value_bracket rest
    exact ⟨r, e, by rw [below, if_pos shorter, h]⟩
  have closes : Closes ']' := ⟨by decide, by decide, by decide⟩
  have parts' : List.Forall₂ (ReadsBelow n (below n)) texts trees :=
    parts.imp fun _ _ h => h.below n
  have whole := enclosed_parts closes parts' (by omega) refuses '[' .array
  rw [hshape, value_cons (by decide) (by decide), unworded, hn,
    ((refuses_quoted (by decide) _).bind _).orElse_eq,
    ((refuses_numeral (by decide) _).bind _).orElse_eq]
  exact orElse_of_done whole _

/-- The text of a field is read as its key and its tree. -/
def ReadsField (f : String × List Char) (g : Option String × Tree) : Prop :=
  g.1 = some f.1 ∧ Reads f.2 g.2

theorem ReadsField.below {f : String × List Char} {g : Option String × Tree} (h : ReadsField f g)
    (n : Nat) : ReadsBelow n (field (below n)) (Quoted.encode f.1.toList ++ ':' :: f.2) g := by
  obtain ⟨key, cs⟩ := f
  obtain ⟨_, tree⟩ := g
  obtain ⟨rfl, h⟩ := h
  intro rest hlength hrest
  have hkey := Quoted.quoted_encode key (':' :: (cs ++ rest))
  have htree := h.below n rest
  simp only [List.append_assoc, List.cons_append, List.length_append, List.length_cons]
    at hlength htree ⊢
  rw [field, bind_of_done (blanks_eq (by simp [Quoted.encode, isBlank])), bind_of_done hkey,
    bind_of_done (token_eq (by decide) _)]
  exact bind_of_done (htree (by omega) hrest) _

theorem reads_objectChars {fields : List (String × List Char)}
    {trees : List (Option String × Tree)} (parts : List.Forall₂ ReadsField fields trees) :
    Reads (objectChars fields) (.object trees) := by
  intro rest _
  generalize htexts : (fields.map fun f => Quoted.encode f.1.toList ++ ':' :: f.2) = texts
  have hshape : objectChars fields ++ rest =
      '\x7b' :: (List.intercalate [','] texts ++ '\x7d' :: rest) := by simp [objectChars, htexts]
  generalize hn : (List.intercalate [','] texts ++ '\x7d' :: rest).length + 1 = n
  have refuses : Refuses (field (below n)) ('\x7d' :: rest) :=
    refuses_bind (blanks_eq (endsBefore_cons.mpr (by decide)))
      ((refuses_quoted (by decide) rest).bind _)
  have parts' : List.Forall₂ (ReadsBelow n (field (below n))) texts trees := by
    rw [← htexts, List.forall₂_map_left_iff]
    exact parts.imp fun _ _ h => h.below n
  have closes : Closes '\x7d' := ⟨by decide, by decide, by decide⟩
  have whole := enclosed_parts closes parts' (by omega) refuses '\x7b' .object
  rw [hshape, value_cons (by decide) (by decide), unworded, hn,
    ((refuses_quoted (by decide) _).bind _).orElse_eq,
    ((refuses_numeral (by decide) _).bind _).orElse_eq, (refuses_array _ (by decide) _).orElse_eq]
  exact whole

end Reader

end Rulebook.Json
