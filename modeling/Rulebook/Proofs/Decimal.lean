import Rulebook.Value

/-!
# Floats by their parts and as text

Operations on floats unpack their operands, compute on the parts and pack the result. A comparison
the other way round has the reverse outcome, and none if either operand is not a number. None of the
steps by which digits become a float brings in a sign: whole numbers and powers of ten have none,
and a product or a quotient has one only if one of its operands has.

A finite float is laid out as digits, perhaps with a point between them and a sign in front. It is
the layout that makes it so, for any digits that are chosen.
-/
namespace Rulebook

namespace Binary64

open Float.Model (Format UnpackedFloat)
open Float.Model.UnpackedFloat (Accuracy roundWithAccuracy unpackSign)

theorem compare_swap (a b : UnpackedFloat) : b.compare a = (a.compare b).map Ordering.swap := by
  cases a with
  | notANumber => cases b <;> rfl
  | infinity s =>
    cases b with
    | infinity t => cases s <;> cases t <;> rfl
    | _ => cases s <;> rfl
  | zero =>
    cases b with
    | notANumber | zero => rfl
    | infinity s | finite s => cases s <;> rfl
  | finite s m e =>
    cases b with
    | notANumber => rfl
    | infinity t => cases t <;> rfl
    | zero => cases s <;> rfl
    | finite t n f =>
      have magnitudes : (compare f e).then (compare n m) =
          ((compare e f).then (compare m n)).swap := by
        rw [Ordering.swap_then, Std.OrientedOrd.eq_swap (a := f), Std.OrientedOrd.eq_swap (a := n)]
      cases s <;> cases t
      case negative.negative => exact congrArg (fun o => some (Ordering.swap o)) magnitudes
      case positive.positive => exact congrArg some magnitudes
      all_goals rfl

theorem order_eq (x y : Float) : order x y = x.toModel.unpack.compare y.toModel.unpack := by
  have hlt (x y : Float) : x < y ↔ x.toModel.unpack.compare y.toModel.unpack = some .lt := by
    change decide (x.toModel.lt y.toModel = true) = true ↔ _
    rw [decide_eq_true_iff]
    exact beq_iff_eq
  have heq : (x == y) = (x.toModel.unpack.compare y.toModel.unpack == some .eq) := rfl
  simp only [order, hlt, heq, compare_swap x.toModel.unpack]
  rcases x.toModel.unpack.compare y.toModel.unpack with _ | _ | _ | _ <;> rfl

theorem order_swap (x y : Float) : order y x = (order x y).map Ordering.swap := by
  rw [order_eq, order_eq, compare_swap]

variable {format : Format}

/-- No sign, or not a number. -/
inductive Unsigned : UnpackedFloat → Prop
  | notANumber : Unsigned .notANumber
  | infinity : Unsigned (.infinity .positive)
  | zero : Unsigned (.zero .positive)
  | finite {m : Nat} {e : Int} (pos : 0 < m) : Unsigned (.finite .positive m e pos)

theorem unsigned_dite {c : Prop} [Decidable c] {a : c → UnpackedFloat} {b : ¬ c → UnpackedFloat}
    (ha : ∀ h, Unsigned (a h)) (hb : ∀ h, Unsigned (b h)) :
    Unsigned (if h : c then a h else b h) := by
  split
  · exact ha _
  · exact hb _

theorem unsigned_roundWithAccuracy (m : Nat) (e : Int) (accuracy : Accuracy) :
    Unsigned (roundWithAccuracy format .positive m e accuracy) :=
  unsigned_dite (fun _ => .zero) fun _ => .finite _

theorem Unsigned.mul {a b : UnpackedFloat} (ha : Unsigned a) (hb : Unsigned b) :
    Unsigned (UnpackedFloat.mul format a b) := by
  cases ha <;> cases hb
  case finite.finite => exact unsigned_roundWithAccuracy ..
  all_goals constructor

theorem Unsigned.div {a b : UnpackedFloat} (ha : Unsigned a) (hb : Unsigned b) :
    Unsigned (UnpackedFloat.div format a b) := by
  cases ha <;> cases hb
  case finite.finite => exact unsigned_roundWithAccuracy ..
  all_goals constructor

theorem unsigned_ofNat (n : Nat) : Unsigned (UnpackedFloat.ofNat format n) := by
  unfold UnpackedFloat.ofNat UnpackedFloat.ofInt UnpackedFloat.normalize
  split
  · next hneg => exact absurd (Int.compare_eq_lt.mp hneg) (by omega)
  · exact .zero
  · exact unsigned_roundWithAccuracy ..

theorem unsigned_ofScientific (m : Nat) (e : Int) :
    Unsigned (UnpackedFloat.ofScientific format m e) := by
  unfold UnpackedFloat.ofScientific
  refine unsigned_dite (fun _ => .zero) fun _ => ?_
  refine iteInduction (fun _ => .infinity) fun _ => iteInduction (fun _ => .zero) fun _ => ?_
  exact iteInduction (fun _ => .mul (.finite _) (.finite _)) fun _ => .div (.finite _) (.finite _)

theorem negative_parts (x : Float) : (parts x).negative = isNegative x := by
  unfold parts
  dsimp only
  split <;> rfl

/-- The sign as the operations on floats unpack it. -/
def signBit (x : Float) : BitVec 1 := @unpackSign .binary64 x.toModel.toBits.toBitVec

theorem unpackSign_eq (b : BitVec 64) : @unpackSign .binary64 b = b.extractLsb' 63 1 := rfl

theorem isNegative_eq_false_iff (x : Float) : isNegative x = false ↔ signBit x = 0#1 := by
  have hlt : x.toBits.toNat < 2 ^ 64 := x.toBits.toNat_lt
  have hbit : (x.toBits >>> 63).toNat = x.toBits.toNat / 2 ^ 63 := by
    rw [UInt64.toNat_shiftRight, Nat.shiftRight_eq_div_pow]
    rfl
  have hsign : (signBit x).toNat = x.toBits.toNat / 2 ^ 63 % 2 := by
    rw [signBit, unpackSign_eq, BitVec.extractLsb'_toNat, Nat.shiftRight_eq_div_pow]
    rfl
  rw [isNegative, beq_eq_false_iff_ne, ne_eq, ← UInt64.toNat_inj, hbit, ← BitVec.toNat_inj, hsign]
  change ¬ x.toBits.toNat / 2 ^ 63 = 1 ↔ x.toBits.toNat / 2 ^ 63 % 2 = 0
  omega

theorem unpackSign_positive (e : BitVec 11) (m : BitVec 52) :
    unpackSign (UnpackedFloat.packComponents .binary64 .positive e m) = 0#1 := by
  have hbits : @unpackSign .binary64 (0#1 ++ e ++ m) = 0#1 := by
    rw [unpackSign_eq, BitVec.extractLsb'_append_eq_of_le (by decide),
      BitVec.extractLsb'_append_eq_of_le (by decide)]
    rfl
  exact hbits

theorem Unsigned.unpackSign_pack {a : UnpackedFloat} (h : Unsigned a) :
    unpackSign (UnpackedFloat.pack .binary64 a) = 0#1 := by
  cases h with
  | notANumber | infinity | zero => exact unpackSign_positive ..
  | finite pos =>
    refine iteInduction (motive := fun b => unpackSign b = 0#1) (fun _ => ?_) fun _ => ?_
    · exact unpackSign_positive ..
    · refine iteInduction (motive := fun b => unpackSign b = 0#1) (fun _ => ?_) fun _ => ?_
      · exact unpackSign_positive ..
      · exact unpackSign_positive ..

theorem Unsigned.isNegative_pack {a : UnpackedFloat} (h : Unsigned a) :
    isNegative (.ofModel (Float.Model.pack a)) = false :=
  (isNegative_eq_false_iff _).mpr h.unpackSign_pack

theorem unsigned_unpack {b : BitVec (Format.numBits .binary64)} (h : unpackSign b = 0#1) :
    Unsigned (UnpackedFloat.unpack .binary64 b) := by
  unfold UnpackedFloat.unpack
  rw [h]
  refine iteInduction (motive := Unsigned) (fun _ => ?_) fun _ => ?_
  · exact iteInduction (fun _ => .infinity) fun _ => .notANumber
  · refine iteInduction (fun _ => ?_) fun _ => .finite _
    exact unsigned_dite (fun _ => .zero) fun _ => .finite _

variable {x y : Float}

theorem unsigned_of_isNegative (h : isNegative x = false) : Unsigned x.toModel.unpack :=
  unsigned_unpack ((isNegative_eq_false_iff x).mp h)

theorem isNegative_mul (hx : isNegative x = false) (hy : isNegative y = false) :
    isNegative (x * y) = false :=
  ((unsigned_of_isNegative hx).mul (unsigned_of_isNegative hy)).isNegative_pack

theorem isNegative_div (hx : isNegative x = false) (hy : isNegative y = false) :
    isNegative (x / y) = false :=
  ((unsigned_of_isNegative hx).div (unsigned_of_isNegative hy)).isNegative_pack

theorem isNegative_toFloat (n : UInt64) : isNegative n.toFloat = false :=
  (unsigned_ofNat _).isNegative_pack

theorem isNegative_powerOfTen :
    ∀ x ∈ Float.exactlyRepresentablePowersOfTen.toList, isNegative x = false := by
  decide

theorem isNegative_ofScientific (m : Nat) (negativePower : Bool) (e : Nat) :
    isNegative (Float.ofScientific m negativePower e) = false := by
  unfold Float.ofScientific
  split
  · next h =>
    have hsize : e < Float.exactlyRepresentablePowersOfTen.size := Nat.lt_succ_of_le h.2
    have hpower := isNegative_powerOfTen Float.exactlyRepresentablePowersOfTen[e] (by simp)
    dsimp only
    split
    · exact isNegative_div (isNegative_toFloat _) hpower
    · exact isNegative_mul (isNegative_toFloat _) hpower
  · exact (unsigned_ofScientific _ _).isNegative_pack

end Binary64

theorem Decimal.Digits.isNegative_nearest (d : Digits) : Binary64.isNegative d.nearest = false :=
  Binary64.isNegative_ofScientific _ _ _

namespace Decimal

/-- One or more digits. -/
def IsDigits (ds : List Char) : Prop := ds ≠ [] ∧ ∀ d ∈ ds, d.isDigit = true

/-- Digits, perhaps with a point between them. -/
inductive Positional : List Char → Prop
  | whole {ds : List Char} (digits : IsDigits ds) : Positional ds
  | pointed {ds es : List Char} (front : IsDigits ds) (behind : IsDigits es) :
      Positional (ds ++ '.' :: es)

theorem isDigits_natChars (n : Nat) : IsDigits (natChars n) :=
  ⟨natChars_ne_nil n, fun _ => isDigit_of_mem_natChars⟩

theorem IsDigits.append {ds es : List Char} (h : IsDigits ds)
    (h' : ∀ d ∈ es, d.isDigit = true) : IsDigits (ds ++ es) := by
  refine ⟨by simp [h.1], fun d hd => ?_⟩
  rcases List.mem_append.mp hd with hd | hd
  · exact h.2 d hd
  · exact h' d hd

theorem isDigit_of_mem_replicate {n : Nat} {d : Char} (h : d ∈ List.replicate n '0') :
    d.isDigit = true := by
  rw [List.eq_of_mem_replicate h]
  decide

theorem IsDigits.not_mem_point {ds : List Char} (h : IsDigits ds) : '.' ∉ ds :=
  fun hmem => absurd (h.2 _ hmem) (by decide)

theorem positional_positionalChars (layout : Layout) {ds : List Char} (h : IsDigits ds) (k : Int) :
    Positional (layout.positionalChars ds k) := by
  unfold Layout.positionalChars
  split
  · have zero : IsDigits ['0'] := ⟨by simp, by simp⟩
    have behind : IsDigits (List.replicate (-k).toNat '0' ++ ds) := by
      refine ⟨by simp [h.1], fun d hd => ?_⟩
      rcases List.mem_append.mp hd with hd | hd
      · exact isDigit_of_mem_replicate hd
      · exact h.2 d hd
    exact .pointed zero behind
  · next hk =>
    have front : IsDigits (ds.take k.toNat) :=
      ⟨by simp [h.1]; omega, fun d hd => h.2 d (List.mem_of_mem_take hd)⟩
    have filled : IsDigits (ds.take k.toNat ++ List.replicate (k.toNat - ds.length) '0') :=
      front.append fun _ => isDigit_of_mem_replicate
    dsimp only
    split
    · split
      · exact .pointed filled ⟨by simp, by simp⟩
      · exact .whole filled
    · next hne =>
      exact .pointed filled ⟨hne, fun d hd => h.2 d (List.mem_of_mem_drop hd)⟩

end Decimal

open Decimal

/-- The text of a float is a word for want of digits, or digits with a sign or without. -/
theorem floatChars_cases (x : Float) :
    Value.floatChars x ∈ [['N', 'a', 'N'], ['-', 'i', 'n', 'f'], ['i', 'n', 'f']] ∨
      ∃ body, Positional body ∧
        Value.floatChars x = if (Binary64.parts x).negative then '-' :: body else body := by
  unfold Value.floatChars
  split
  · simp
  · split
    · split <;> simp
    · exact .inr ⟨_, positional_positionalChars _ (isDigits_natChars _) _, rfl⟩

end Rulebook
