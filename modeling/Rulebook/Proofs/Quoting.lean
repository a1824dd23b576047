import Rulebook.Proofs.Evaluation.Criteria

/-!
# Quoted texts

Every text has a quoted form of either kind. Between single quotes a single quote is written twice;
between double quotes a double quote and a backslash go behind a backslash. The quoted text is the
literal of the text and ends at its last character, whatever stands inside, so a text that comes
from elsewhere cannot become part of the condition that it is put into.
-/
namespace Rulebook

open Condition Condition.Grammar Text Text.Parser

/-- Every double quote and every backslash behind a backslash. -/
def backslashed (cs : List Char) : List Char :=
  cs.flatMap fun c => if c = '\x22' ∨ c = '\\' then ['\\', c] else [c]

theorem backslashed_cons_of_special {c : Char} (h : c = '\x22' ∨ c = '\\') (cs : List Char) :
    backslashed (c :: cs) = '\\' :: c :: backslashed cs := by simp [backslashed, h]

theorem backslashed_cons_of_plain {c : Char} (h : ¬ (c = '\x22' ∨ c = '\\')) (cs : List Char) :
    backslashed (c :: cs) = c :: backslashed cs := by simp [backslashed, h]

namespace Quote

/-- The text with no character left that ends or alters it between quotes of this kind. -/
def escape : Quote → List Char → List Char
  | .single => doubled
  | .double => backslashed

def quotedChars (quote : Quote) (s : String) : List Char :=
  quote.char :: (quote.escape s.toList ++ [quote.char])

/-- The text between quotes. -/
def quoted (quote : Quote) (s : String) : String := String.ofList (quote.quotedChars s)

end Quote

/-- What is read behind a backslash is the character that was put there. -/
theorem doubleQuotedText_backslashed (cs : List Char) : DoubleQuotedText (backslashed cs) cs := by
  induction cs with
  | nil => exact .nil
  | cons c cs ih =>
    by_cases h : c = '\x22' ∨ c = '\\'
    · rw [backslashed_cons_of_special h]
      rcases h with rfl | rfl
      · exact .quote ih
      · exact .backslash ih
    · rw [backslashed_cons_of_plain h]
      obtain ⟨hquote, hbackslash⟩ := not_or.mp h
      exact .plain hquote hbackslash ih

namespace Quote

/-- A quoted text is the literal of the text wherever no single quote follows. -/
theorem literalText_quoted (quote : Quote) (s : String) {t : List Char}
    (ht : t.head? ≠ some '\x27') : LiteralText (quote.quotedChars s ++ t) (.string s) t := by
  cases quote with
  | single =>
    have text : LiteralText ('\x27' :: (doubled s.toList ++ '\x27' :: t)) _ t := .singleQuoted ht
    rw [String.ofList_toList] at text
    simpa [quotedChars, escape, Quote.char] using text
  | double =>
    have text := LiteralText.doubleQuoted (t := t) (doubleQuotedText_backslashed s.toList)
    rw [String.ofList_toList] at text
    simpa [quotedChars, escape, Quote.char] using text

/-- A path compared with a quoted text is compared with the text. -/
theorem parse_comparison (quote : Quote) (s : String) (path : DottedPath) {op : BinaryOp}
    (mem : op ∈ Level.symbols .equality ∨ op ∈ comparisons) :
    parse (String.ofList (Criterion.comparisonChars path op (quote.quotedChars s))) =
      .ok (.binary op path.expr (.literal (.string s))) := by
  have text : LiteralText (quote.quotedChars s ++ []) (.string s) [] :=
    quote.literalText_quoted s (by simp)
  have whole := Criterion.derives_comparison path mem text
  refine parse_of_describes ⟨[], ?_, Blanks.refl _⟩
  simpa using whole

/-- A quoted text is read as the text, on its own and behind a name and an equality sign. -/
theorem parse_quoted (quote : Quote) (s : String) :
    parse (quote.quoted s) = .ok (.literal (.string s)) ∧
      ∀ x : String, IsName x → x ∉ reserved →
        parse (x ++ " == " ++ quote.quoted s) =
          .ok (.binary .eq (.var x) (.literal (.string s))) := by
  constructor
  · have text : LiteralText (quote.quotedChars s ++ []) (.string s) [] :=
      quote.literalText_quoted s (by simp)
    have whole : Derives .choice (quote.quotedChars s ++ []) (.literal (.string s)) [] :=
      (Derives.literal (Blanks.refl _) text).loosen (Level.rank_le_primary _)
    refine parse_of_describes ⟨[], ?_, Blanks.refl _⟩
    simpa [quoted] using whole
  · intro x hx free
    let path : DottedPath := ⟨false, x, [], by simpa using hx, fun _ => free⟩
    have source : x ++ " == " ++ quote.quoted s =
        String.ofList (Criterion.comparisonChars path .eq (quote.quotedChars s)) := by
      rw [← String.toList_inj]
      simp [quoted, path, Criterion.comparisonChars, DottedPath.chars, DottedPath.dotted, Path.join,
        BinaryOp.symbol]
    rw [source]
    exact parse_comparison quote s path (.inl (by decide))

/-- A text that would end its quotes and go on as a condition of its own stays inside them. -/
theorem parse_quoted_closing :
    (IsName "status" ∧ "status" ∉ reserved) ∧
      Quote.single.quoted "x' or 'a' == 'a" = "'x'' or ''a'' == ''a'" ∧
      parse ("status" ++ " == " ++ Quote.single.quoted "x' or 'a' == 'a") =
        .ok (.binary .eq (.var "status") (.literal (.string "x' or 'a' == 'a"))) ∧
      Quote.double.quoted "\x22 or a \\" = "\x22\\\x22 or a \\\\\x22" ∧
      parse ("status" ++ " == " ++ Quote.double.quoted "\x22 or a \\") =
        .ok (.binary .eq (.var "status") (.literal (.string "\x22 or a \\"))) := by
  have hname : IsName "status" := by decide
  have hfree : "status" ∉ reserved := by decide
  refine ⟨⟨hname, hfree⟩, by decide, ?_, by decide, ?_⟩
  · exact (parse_quoted .single _).2 "status" hname hfree
  · exact (parse_quoted .double _).2 "status" hname hfree

end Quote

end Rulebook
