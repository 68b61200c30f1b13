import LeadSheet.Proofs.Number.Decimals

/-!
# Doubles without a minus sign

Times in a score grow from zero by adding what is not negative, and beats are counted from one by
subtracting it. None of this makes a double that is negative, negative zero, or not a number:
`Unsigned` doubles stay unsigned. Decimals are unsigned from the start, and those of integers above
zero are above zero.
-/

namespace LeadSheet.Double

open Float.Model (Format UnpackedFloat)
open Float.Model.Format (binary64)
open Float.Model.UnpackedFloat

/-! ## Signs of floats -/

/-- A number with the sign plus. -/
def Plus : UnpackedFloat → Prop
  | .zero .positive | .infinity .positive | .finite .positive _ _ _ => True
  | _ => False

/-- A number that is not below zero. -/
def NotBelow : UnpackedFloat → Prop
  | .zero _ | .infinity .positive | .finite .positive _ _ _ => True
  | _ => False

theorem Plus.notBelow : ∀ {u : UnpackedFloat}, Plus u → NotBelow u
  | .zero .positive, _ | .infinity .positive, _ | .finite .positive _ _ _, _ => trivial

section

variable {c : Prop} [Decidable c]

theorem plus_dite {u : c → UnpackedFloat} {v : ¬c → UnpackedFloat} (h : ∀ hc, Plus (u hc))
    (h' : ∀ hc, Plus (v hc)) : Plus (if hc : c then u hc else v hc) := by
  by_cases hc : c
  · rw [dif_pos hc]
    exact h hc
  · rw [dif_neg hc]
    exact h' hc

theorem plus_ite {u v : UnpackedFloat} (h : c → Plus u) (h' : ¬c → Plus v) :
    Plus (if c then u else v) := by
  by_cases hc : c
  · rw [if_pos hc]
    exact h hc
  · rw [if_neg hc]
    exact h' hc

end

section

variable {m : Nat} {e : Int}

theorem plus_roundWithAccuracy (m : Nat) (e : Int) (a : Accuracy) :
    Plus (roundWithAccuracy binary64 .positive m e a) := by
  unfold roundWithAccuracy
  exact plus_dite (fun _ => True.intro) fun _ => True.intro

theorem plus_normalize {n : Int} (hle : 0 ≤ n) (e : Int) :
    Plus (normalize binary64 n e .positive) := by
  unfold UnpackedFloat.normalize
  split
  · next h => exact absurd (compare_lt_iff_lt.mp h) (not_lt.mpr hle)
  · trivial
  · exact plus_roundWithAccuracy _ _ _

theorem Plus.div : ∀ {u : UnpackedFloat}, Plus u → ∀ {m e} (hm : 0 < m),
    Plus (div binary64 u (.finite .positive m e hm))
  | .zero .positive, _, _, _, _ | .infinity .positive, _, _, _, _ => trivial
  | .finite .positive _ _ _, _, _, _, _ => plus_roundWithAccuracy _ _ _

theorem Plus.mul : ∀ {u : UnpackedFloat}, Plus u → ∀ {m e} (hm : 0 < m),
    Plus (mul binary64 u (.finite .positive m e hm))
  | .zero .positive, _, _, _, _ | .infinity .positive, _, _, _, _ => trivial
  | .finite .positive _ _ _, _, _, _, _ => plus_roundWithAccuracy _ _ _

/-- Plus stays plus when negative zero is added. -/
theorem Plus.add : ∀ {u v : UnpackedFloat}, Plus u → NotBelow v → Plus (add binary64 u v)
  | .infinity .positive, .zero _, _, _
  | .infinity .positive, .infinity .positive, _, _
  | .infinity .positive, .finite .positive _ _ _, _, _
  | .zero .positive, .zero .positive, _, _
  | .zero .positive, .zero .negative, _, _
  | .zero .positive, .infinity .positive, _, _
  | .zero .positive, .finite .positive _ _ _, _, _
  | .finite .positive _ _ _, .zero _, _, _
  | .finite .positive _ _ _, .infinity .positive, _, _ => trivial
  | .finite .positive _ _ _, .finite .positive _ _ _, _, _ =>
    plus_normalize (Int.add_nonneg (Int.natCast_nonneg _) (Int.natCast_nonneg _)) _

theorem plus_ofScientific (m : Nat) (e : Int) : Plus (ofScientific binary64 m e) := by
  unfold ofScientific
  refine plus_dite (fun _ => True.intro) fun _ => plus_ite (fun _ => True.intro) fun _ =>
    plus_ite (fun _ => True.intro) fun _ => plus_ite (fun _ => ?_) fun _ => ?_
  · exact plus_roundWithAccuracy _ _ _
  · exact plus_roundWithAccuracy _ _ _

end

/-- Without the sign bit, and with no fraction behind the greatest exponent, bits stand for a number
with the sign plus. -/
theorem plus_unpack {b : BitVec 64} (hsign : b.toNat < 2 ^ 63)
    (hmax : b.toNat / 2 ^ 52 % 2 ^ 11 = 2 ^ 11 - 1 → b.toNat % 2 ^ 52 = 0) :
    Plus (unpack binary64 b) := by
  rw [unpack_eq]
  dsimp only
  rw [if_pos hsign]
  refine plus_ite (fun h => ?_) fun _ => plus_ite (fun _ => ?_) fun _ => True.intro
  · rw [if_pos (hmax h)]
    exact True.intro
  · exact plus_dite (fun _ => True.intro) fun _ => True.intro

theorem plus_unpack_packComponents (exponent : BitVec 11) (mantissa : BitVec 52)
    (hmax : exponent.toNat = 2 ^ 11 - 1 → mantissa.toNat = 0) :
    Plus (unpack binary64 (packComponents binary64 .positive exponent mantissa)) := by
  have hbits := toNat_packComponents .positive exponent mantissa
  have hexponent := exponent.isLt
  have hmantissa := mantissa.isLt
  rw [show Sign.positive.toBitVec.toNat = 0 from rfl] at hbits
  exact plus_unpack (by omega) (by omega)

/-- Packing keeps the sign, also of what a double cannot hold. -/
theorem Plus.unpack_pack : ∀ {u : UnpackedFloat}, Plus u → Plus (unpack binary64 (pack binary64 u))
  | .zero .positive, _ => plus_unpack_packComponents 0 0 (fun _ => rfl)
  | .infinity .positive, _ => plus_unpack_packComponents (-1#11) 0 (fun _ => rfl)
  | .finite .positive m e hm, _ => by
    rw [pack_finite]
    split
    · exact plus_unpack_packComponents (-1#11) 0 (fun _ => rfl)
    · next hlt =>
      split
      · refine plus_unpack_packComponents _ _ fun hmax => ?_
        rw [BitVec.toNat_ofNat] at hmax
        omega
      · exact plus_unpack_packComponents _ _ fun hmax => absurd hmax (by decide)

/-! ## Signs of doubles -/

/-- A double with the sign plus. -/
def Unsigned (x : Float) : Prop := Plus (unpack binary64 x.toModel.toBits.toBitVec)

theorem unpack_zero :
    unpack binary64 (Scalar.ofNat 0 : Float).toModel.toBits.toBitVec = .zero .positive := by
  have hbits : (Scalar.ofNat 0 : Float).toModel.toBits.toBitVec = 0#64 := by
    decide +kernel
  rw [hbits]
  rfl

theorem unpack_ofNat_one :
    unpack binary64 (Scalar.ofNat 1 : Float).toModel.toBits.toBitVec
      = .finite .positive (2 ^ 52) (-52) (by decide) := by
  have hbits : (Scalar.ofNat 1 : Float).toModel.toBits.toBitVec = 0x3FF0000000000000#64 := by
    decide +kernel
  rw [hbits]
  rfl

theorem unpack_ofNat_twelve :
    unpack binary64 (Scalar.ofNat 12 : Float).toModel.toBits.toBitVec
      = .finite .positive (12 * 2 ^ 49) (-49) (by decide) := by
  have hbits : (Scalar.ofNat 12 : Float).toModel.toBits.toBitVec = 0x4028000000000000#64 := by
    decide +kernel
  rw [hbits]
  rfl

theorem zero_le_iff {x : Float} :
    Scalar.ofNat 0 ≤ x ↔ NotBelow (unpack binary64 x.toModel.toBits.toBitVec) := by
  rw [le_iff_compare, unpack_zero]
  match unpack binary64 x.toModel.toBits.toBitVec with
  | .notANumber | .infinity .negative | .finite .negative _ _ _ =>
    exact ⟨fun h : false = true => absurd h Bool.false_ne_true, False.elim⟩
  | .zero _ | .infinity .positive | .finite .positive _ _ _ =>
    exact ⟨fun _ => trivial, fun _ => rfl⟩

theorem zero_lt_of_finite {x : Float} {m : Nat} {e : Int} {hm : 0 < m}
    (hx : unpack binary64 x.toModel.toBits.toBitVec = .finite .positive m e hm) :
    Scalar.ofNat 0 < x := by
  rw [lt_iff_compare, unpack_zero, hx]
  rfl

theorem zero_lt_of_infinite {x : Float}
    (hx : unpack binary64 x.toModel.toBits.toBitVec = .infinity .positive) :
    Scalar.ofNat 0 < x := by
  rw [lt_iff_compare, unpack_zero, hx]
  rfl

section

variable {x y : Float}

theorem Unsigned.zero_le (hx : Unsigned x) : Scalar.ofNat 0 ≤ x := zero_le_iff.mpr hx.notBelow

theorem Unsigned.add (hx : Unsigned x) (hy : Scalar.ofNat 0 ≤ y) : Unsigned (x + y) :=
  (Plus.add hx (zero_le_iff.mp hy)).unpack_pack

theorem Unsigned.mul (hx : Unsigned x) {m : Nat} {e : Int} {hm : 0 < m}
    (hy : unpack binary64 y.toModel.toBits.toBitVec = .finite .positive m e hm) :
    Unsigned (x * y) := by
  refine Plus.unpack_pack (u := UnpackedFloat.mul binary64
    (unpack binary64 x.toModel.toBits.toBitVec) (unpack binary64 y.toModel.toBits.toBitVec)) ?_
  rw [hy]
  exact Plus.mul hx hm

/-- Counting from zero instead of from one. -/
theorem Unsigned.sub_one (hx : Unsigned x) (hle : ¬x < Scalar.ofNat 1) :
    Unsigned (x - Scalar.ofNat 1) := by
  have hone := unpack_ofNat_one
  have hone' : valueOf? (Scalar.ofNat 1 : Float) = some 1 := by
    unfold valueOf?
    rw [hone]
    change some (((2 ^ 52 : Nat) : Rat) * 2 ^ (-52 : Int)) = some 1
    norm_num
  refine Plus.unpack_pack (u := sub binary64 (unpack binary64 x.toModel.toBits.toBitVec)
    (unpack binary64 (Scalar.ofNat 1 : Float).toModel.toBits.toBitVec)) ?_
  rw [hone]
  unfold Unsigned at hx
  match hu : unpack binary64 x.toModel.toBits.toBitVec, hx with
  | .infinity .positive, _ => trivial
  | .zero .positive, _ =>
    have hzero : valueOf? x = some 0 := by
      unfold valueOf?
      rw [hu]
      rfl
    exact absurd ((lt_iff_valueOf? hzero hone').mpr one_pos) hle
  | .finite .positive m e hm, _ =>
    have hvalue : valueOf? x = some (m * 2 ^ e : Rat) := by
      unfold valueOf?
      rw [hu]
      rfl
    have hge : (1 : Rat) ≤ m * 2 ^ e :=
      not_lt.mp (mt (lt_iff_valueOf? hvalue hone').mpr hle)
    unfold sub
    dsimp only
    refine plus_normalize ?_ _
    -- both mantissas are written for the lower exponent, at which the greater value has the greater
    have hm := decreaseExponent_eq .positive m (min_le_left e (-52))
    have hm' := decreaseExponent_eq .positive (2 ^ 52) (min_le_right e (-52))
    have htwo : (0 : Rat) < 2 ^ min e (-52) := by positivity
    have hunit : signed .positive (((2 ^ 52 : Nat) : Rat) * 2 ^ (-52 : Int)) = 1 := by
      change ((2 ^ 52 : Nat) : Rat) * 2 ^ (-52 : Int) = 1
      norm_num
    rw [hunit] at hm'
    change _ = (m * 2 ^ e : Rat) at hm
    rw [← hm, ← hm'] at hge
    have := le_of_mul_le_mul_right hge htwo
    exact sub_nonneg.mpr (by exact_mod_cast this)

theorem unsigned_ofScientific (m : Nat) (s : Bool) (e : Nat) :
    Unsigned (Float.ofScientific m s e) := by
  unfold Float.ofScientific
  by_cases hfast : m < 2 ^ 53 ∧ e ≤ 22
  · rw [dif_pos hfast]
    have hdigits : Unsigned m.toUInt64.toFloat :=
      (plus_normalize (Int.natCast_nonneg _) 0).unpack_pack
    obtain ⟨m', e', hheld, hu, -⟩ := exists_finite_of_valueOf?
      (valueOf?_powersOfTen (Nat.lt_succ_of_le hfast.2)) (by positivity)
    cases s with
    | true =>
      rw [if_pos rfl]
      refine Plus.unpack_pack (u := div binary64
        (unpack binary64 m.toUInt64.toFloat.toModel.toBits.toBitVec) _) ?_
      refine (congrArg (fun v => Plus (div binary64 _ v)) hu).mpr ?_
      exact Plus.div hdigits hheld.pos
    | false =>
      rw [if_neg Bool.false_ne_true]
      refine Plus.unpack_pack (u := mul binary64
        (unpack binary64 m.toUInt64.toFloat.toModel.toBits.toBitVec) _) ?_
      refine (congrArg (fun v => Plus (mul binary64 _ v)) hu).mpr ?_
      exact Plus.mul hdigits hheld.pos
  · rw [dif_neg hfast]
    exact (plus_ofScientific _ _).unpack_pack

end

theorem unsigned_ofDecimal (m places : Nat) : Unsigned (Scalar.ofDecimal m places) :=
  unsigned_ofScientific m true places

theorem unsigned_numeral (n : Nat) : Unsigned (@OfNat.ofNat Float n (Scalar.instOfNat n)) :=
  unsigned_ofDecimal n 0

/-- What is not tiny rounds to a double above zero. -/
theorem RoundsTo.zero_lt {q : Rat} {x : Float} (h : RoundsTo q x)
    (hq : (2 : Rat) ^ (-1074 : Int) ≤ q) : Scalar.ofNat 0 < x := by
  obtain ⟨u, hrounds, rfl⟩ := h
  rcases hrounds.held_or_infinite hq with ⟨m, e, hheld, rfl⟩ | hinfinite
  · exact zero_lt_of_finite (hheld.unpack_pack .positive)
  · refine zero_lt_of_infinite ?_
    change unpack binary64 (pack binary64 u) = _
    rw [hinfinite]
    rfl

/-- **Integers above zero are doubles above zero**, infinity among them. -/
theorem zero_lt_ofNat {n : Nat} (hpos : 0 < n) : (Scalar.ofNat 0 : Float) < Scalar.ofNat n := by
  have hn : (1 : Rat) ≤ n := by exact_mod_cast hpos
  refine (ofScientific_rounds hpos true (k := 0) rfl (by omega) (by decide)).zero_lt ?_
  rw [zpow_zero, mul_one]
  exact (zpow_le_one_of_nonpos₀ one_le_two (by decide)).trans hn

end LeadSheet.Double
