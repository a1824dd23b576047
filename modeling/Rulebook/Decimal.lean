/-!
# Numbers as decimals

Naturals and integers are written in decimal digits and read back from them. A finite binary64 value
is a sign and a natural significand times a power of two; comparison and remainder are stated on
these parts, where they are exact. A decimal is a natural times a power of ten. It stands for the
binary64 value nearest to it, and of two equally near ones for the one with the even significand.

A binary64 value stands for the interval of reals that round to it. `Digits.shortest` selects a
decimal in that interval with as few digits as possible and, among those, nearest to the value; all
comparisons are made on naturals. Where the point goes and how an exponent is shown is the matter of
a `Layout`.
-/
namespace Rulebook

namespace Binary64

/-- The finite value `± significand * 2 ^ exponent`. -/
structure Parts where
  negative : Bool
  significand : Nat
  exponent : Int
deriving DecidableEq, Repr

/-- The sign bit. -/
def isNegative (x : Float) : Bool := x.toBits >>> 63 == 1

/-- The parts of a finite value. The bits of an infinity or of a value that is not a number have no
parts; callers rule them out first. -/
def parts (x : Float) : Parts :=
  let bits := x.toBits
  let field := ((bits >>> 52) &&& 0x7FF).toNat
  let fraction := (bits &&& 0xFFFFFFFFFFFFF).toNat
  if field = 0 then ⟨isNegative x, fraction, -1074⟩
  else ⟨isNegative x, 0x10000000000000 + fraction, (field : Int) - 1075⟩

/-- The value below a power of two is half as far away as the value above it, except at the bottom
of the range. -/
def Parts.narrowBelow (p : Parts) : Bool := p.significand = 0x10000000000000 && p.exponent > -1074

/-- The value `± n * 2 ^ e`, rounded to nearest; exact whenever such a value exists. A negative
power of two is written over a power of ten: `2 ^ -k = 5 ^ k / 10 ^ k`. -/
def ofParts (p : Parts) : Float :=
  let magnitude :=
    if 0 ≤ p.exponent then Float.ofScientific (p.significand <<< p.exponent.toNat) false 0
    else Float.ofScientific (p.significand * Nat.pow 5 (-p.exponent).toNat) true (-p.exponent).toNat
  if p.negative then -magnitude else magnitude

/-- How two values stand to each other; `none` if either is not a number. Zeros of both signs are
equal. -/
def order (x y : Float) : Option Ordering :=
  if x < y then some .lt else if y < x then some .gt else if x == y then some .eq else none

/-- The truncating remainder, computed without rounding: both values are brought to the smaller
exponent, and the result takes the sign of the dividend. -/
def remainder (x y : Float) : Float :=
  if x.isNaN || y.isNaN || x.isInf || y == 0 then 0 / 0
  else if y.isInf then x
  else
    let a := parts x
    let b := parts y
    let exponent := min a.exponent b.exponent
    let m := a.significand <<< (a.exponent - exponent).toNat
    let n := b.significand <<< (b.exponent - exponent).toNat
    ofParts ⟨a.negative, m % n, exponent⟩

end Binary64

namespace Decimal

/-- `n` in decimal digits. -/
def natChars (n : Nat) : List Char := Nat.toDigits 10 n

/-- `n` in decimal digits, with a leading minus sign if it is negative. -/
def intChars (n : Int) : List Char :=
  if n < 0 then '-' :: natChars n.natAbs else natChars n.natAbs

/-- The number that decimal digits denote. -/
def natOfChars (ds : List Char) : Nat := Nat.ofDigitChars 10 ds 0

@[simp] theorem natOfChars_natChars (n : Nat) : natOfChars (natChars n) = n :=
  Nat.ofDigitChars_ten_toDigits

@[simp] theorem natChars_ne_nil (n : Nat) : natChars n ≠ [] := Nat.toDigits_ne_nil

theorem isDigit_of_mem_natChars {n : Nat} {c : Char} (h : c ∈ natChars n) : c.isDigit = true :=
  Nat.isDigit_of_mem_toDigits (by decide) (by decide) h

theorem natChars_of_lt {n : Nat} (h : n < 10) : natChars n = [n.digitChar] :=
  Nat.toDigits_of_lt_base h

theorem natChars_of_le {n : Nat} (h : 10 ≤ n) :
    natChars n = natChars (n / 10) ++ [(n % 10).digitChar] :=
  Nat.toDigits_of_base_le (by decide) h

/-- Only zero is written with a zero in front. -/
theorem head?_natChars_eq_zero (n : Nat) : (natChars n).head? = some '0' ↔ n = 0 := by
  induction n using Nat.strongRecOn with
  | ind n ih =>
    by_cases h : n < 10
    · rw [natChars_of_lt h]
      have small : ∀ d : Fin 10, [Nat.digitChar d].head? = some '0' ↔ d.val = 0 := by decide
      exact small ⟨n, h⟩
    · have front := ih (n / 10) (by omega)
      obtain ⟨c, cs, hc⟩ := List.exists_cons_of_ne_nil (natChars_ne_nil (n / 10))
      rw [natChars_of_le (by omega)]
      rw [hc] at front ⊢
      simp only [List.cons_append, List.head?_cons] at front ⊢
      rw [front]
      omega

@[simp] theorem intChars_natCast (n : Nat) : intChars n = natChars n := by
  simp [intChars, Int.not_lt.2 (Int.natCast_nonneg n)]

theorem intChars_of_neg {n : Int} (h : n < 0) : intChars n = '-' :: natChars n.natAbs := by
  simp [intChars, h]

/-- The decimal `digits * 10 ^ exponent`. -/
structure Digits where
  digits : Nat
  exponent : Int
deriving DecidableEq, Repr

namespace Digits

/-- The decimal written `whole.fraction` times `10 ^ exponent`. -/
def written (whole fraction : List Char) (exponent : Int) : Digits :=
  ⟨natOfChars (whole ++ fraction), exponent - fraction.length⟩

/-- The nearest float; infinite if the decimal is too large. -/
def nearest (d : Digits) : Float :=
  Float.ofScientific d.digits (d.exponent < 0) d.exponent.natAbs

end Digits

/-- What becomes of a value halfway between two candidates. -/
inductive Tie where
  | toEven
  | up
deriving DecidableEq, Repr

/-- Compare `a * 10 ^ i` with `n * 2 ^ j`. -/
def compareScaled (a : Nat) (i : Int) (n : Nat) (j : Int) : Ordering :=
  compare ((a * Nat.pow 10 i.toNat) <<< (-j).toNat) ((n * Nat.pow 10 (-i).toNat) <<< j.toNat)

/-- The decimal lies among the reals that round to the value: between the midpoints to both
neighbours, which belong to the interval exactly when the significand is even. -/
def Digits.readsBack (d : Digits) (p : Binary64.Parts) : Bool :=
  let low := if p.narrowBelow then 4 * p.significand - 1 else 4 * p.significand - 2
  let high := 4 * p.significand + 2
  let closed := p.significand % 2 == 0
  let fromLow := compareScaled d.digits d.exponent low (p.exponent - 2)
  let fromHigh := compareScaled d.digits d.exponent high (p.exponent - 2)
  (fromLow == .gt || (closed && fromLow == .eq)) && (fromHigh == .lt || (closed && fromHigh == .eq))

/-- The number of decimal digits; zero has one. -/
def digitCount (n : Nat) : Nat := (natChars n).length

/-- The least `k` with `value < 10 ^ k`, for a value that is not zero. -/
def leadingScale (p : Binary64.Parts) : Int :=
  let n := p.significand <<< p.exponent.toNat
  let d := 1 <<< (-p.exponent).toNat
  if d ≤ n then digitCount (n / d)
  else
    let l := digitCount (d / n)
    if n * Nat.pow 10 (l - 1) = d then 2 - (l : Int) else 1 - (l : Int)

/-- The better of the two neighbours of the value on the grid of step `10 ^ e`, if one reads back:
the one that does, of two the nearer, of two equally near ones as `tie` says. -/
def onGrid (tie : Tie) (p : Binary64.Parts) (e : Int) : Option Digits :=
  let n := (p.significand * Nat.pow 10 (-e).toNat) <<< p.exponent.toNat
  let d := Nat.pow 10 e.toNat <<< (-p.exponent).toNat
  let below : Digits := ⟨n / d, e⟩
  let above : Digits := ⟨n / d + 1, e⟩
  match below.readsBack p, above.readsBack p with
  | false, false => none
  | true, false => some below
  | false, true => some above
  | true, true =>
    match compare (2 * (n % d)) d with
    | .lt => some below
    | .gt => some above
    | .eq =>
      match tie with
      | .up => some above
      | .toEven => some (if below.digits % 2 = 0 then below else above)

/-- Move trailing zeros into the exponent, at most `fuel` of them. -/
def Digits.stripZeros : Nat → Digits → Digits
  | 0, d => d
  | fuel + 1, d =>
    if d.digits % 10 = 0 ∧ d.digits ≠ 0 then stripZeros fuel ⟨d.digits / 10, d.exponent + 1⟩ else d

/-- The decimal equal to the value. -/
def Digits.exact (p : Binary64.Parts) : Digits :=
  if 0 ≤ p.exponent then ⟨p.significand <<< p.exponent.toNat, 0⟩
  else ⟨p.significand * Nat.pow 5 (-p.exponent).toNat, p.exponent⟩

/-- The fewest digits that read back. The grids are tried from one digit on; seventeen digits
always suffice, and were none found the value itself would be written out. -/
def Digits.shortest (tie : Tie) (p : Binary64.Parts) : Digits :=
  if p.significand = 0 then ⟨0, 0⟩
  else
    let scale := leadingScale p
    let found := (List.range 17).findSome? fun (i : Nat) => onGrid tie p (scale - 1 - i)
    let d := found.getD (.exact p)
    d.stripZeros (digitCount d.digits)

/-- How finite values are written. -/
structure Layout where
  /-- which of two equally near decimals is chosen -/
  tie : Tie
  /-- whether a value whose first digit stands for `10 ^ e` is written without an exponent -/
  positional : Int → Bool
  /-- whether an integral value still shows one digit after the point -/
  pointZero : Bool

/-- The digits with the point after the first `k` of them; zeros fill the places that have none. -/
def Layout.positionalChars (layout : Layout) (ds : List Char) (k : Int) : List Char :=
  if k ≤ 0 then '0' :: '.' :: (List.replicate (-k).toNat '0' ++ ds)
  else
    let whole := ds.take k.toNat
    let filled := whole ++ List.replicate (k.toNat - ds.length) '0'
    match ds.drop k.toNat with
    | [] => if layout.pointZero then filled ++ ['.', '0'] else filled
    | fraction => filled ++ '.' :: fraction

/-- One digit before the point, the others after it, and a signed exponent. -/
def exponentChars (ds : List Char) (e : Int) : List Char :=
  let mantissa :=
    match ds with
    | first :: second :: rest => first :: '.' :: second :: rest
    | short => short
  mantissa ++ 'e' :: (if e < 0 then '-' else '+') :: natChars e.natAbs

/-- The text of a finite value. The sign of a zero is kept. -/
def Layout.chars (layout : Layout) (x : Float) : List Char :=
  let p := Binary64.parts x
  let d := Digits.shortest layout.tie p
  let ds := natChars d.digits
  let leading : Int := d.exponent + ds.length - 1
  let body :=
    if layout.positional leading then layout.positionalChars ds (leading + 1)
    else exponentChars ds leading
  if p.negative then '-' :: body else body

end Decimal

end Rulebook
