import LeadSheet.Proofs.Number.Exact
import Mathlib.Algebra.Order.Field.Power
import Mathlib.Tactic.FieldSimp

/-!
# Doubles that need no rounding

A double is kept as a sign, a mantissa and a power of two, and every operation works on these and
rounds what comes out. Here it is shown that rounding changes nothing that a double can hold: a
value with a mantissa below `2 ^ 53`, whichever way it is written (`Held.round_of_eq`). So integers
below `2 ^ 53` stay what they are (`value?_normalize`), and so does the difference of two doubles
where it is such an integer (`value?_sub`).

Values are compared exponent first, which is right because above the lowest exponent mantissas are
full: a greater exponent alone makes the greater value (`Held.mul_lt`).
-/

namespace LeadSheet.Double

open Float.Model (Format UnpackedFloat totalExponent)
open Float.Model.Format (binary64)
open Float.Model.UnpackedFloat

/-! ## Fields -/

/-- A mantissa and an exponent that a double can hold: the mantissa is full, or the exponent is the
lowest one. -/
structure Held (m : Nat) (e : Int) : Prop where
  pos : 0 < m
  lt : m < 2 ^ 53
  least : -1074 ≤ e
  greatest : e ≤ 971
  full : 2 ^ 52 ≤ m ∨ e = -1074

section

variable (b : BitVec 64)

theorem toNat_unpackExponent :
    (@unpackExponent binary64 b).toNat = b.toNat / 2 ^ 52 % 2 ^ 11 := by
  simp [unpackExponent, BitVec.extractLsb, BitVec.extractLsb', Nat.shiftRight_eq_div_pow]

theorem toNat_unpackMantissa :
    (@unpackMantissa binary64 b).toNat = b.toNat % 2 ^ 52 := by
  simp [unpackMantissa, BitVec.extractLsb, BitVec.extractLsb']

theorem toNat_unpackSign :
    (@unpackSign binary64 b).toNat = b.toNat / 2 ^ 63 := by
  have hb : b.toNat < 2 ^ 64 := b.isLt
  change (b.extractLsb' 63 1).toNat = _
  rw [BitVec.extractLsb'_toNat, Nat.shiftRight_eq_div_pow]
  omega

theorem ofBitVec_unpackSign : Sign.ofBitVec (@unpackSign binary64 b)
    = if b.toNat < 2 ^ 63 then .positive else .negative := by
  unfold Sign.ofBitVec
  congr 1
  rw [← BitVec.toNat_inj, toNat_unpackSign]
  simp

theorem finite_congr {s : Sign} {m m' : Nat} {e e' : Int} {hm : 0 < m} {hm' : 0 < m'}
    (hmantissa : m = m') (hexponent : e = e') :
    UnpackedFloat.finite s m e hm = .finite s m' e' hm' := by
  subst hmantissa hexponent
  rfl

/-- What the fields of a double stand for, read off its bits as numbers. -/
theorem unpack_eq : unpack binary64 b =
    let exponent : Nat := b.toNat / 2 ^ 52 % 2 ^ 11
    let fraction : Nat := b.toNat % 2 ^ 52
    let sign := if b.toNat < 2 ^ 63 then Sign.positive else Sign.negative
    if exponent = 2 ^ 11 - 1 then if fraction = 0 then .infinity sign else .notANumber
    else if exponent = 0 then
      if h : fraction = 0 then .zero sign else .finite sign fraction (-1074) (by omega)
    else .finite sign (2 ^ 52 + fraction) ((exponent : Int) - 1075) (by omega) := by
  have hexponent := toNat_unpackExponent b
  have hmantissa := toNat_unpackMantissa b
  have hmax : @unpackExponent binary64 b = -1#_
      ↔ b.toNat / 2 ^ 52 % 2 ^ 11 = 2 ^ 11 - 1 := by
    rw [← BitVec.toNat_inj, hexponent]
    rfl
  have hzero : @unpackExponent binary64 b = 0#_ ↔ b.toNat / 2 ^ 52 % 2 ^ 11 = 0 := by
    rw [← BitVec.toNat_inj, hexponent]
    rfl
  have hfraction : @unpackMantissa binary64 b = 0#_ ↔ b.toNat % 2 ^ 52 = 0 := by
    rw [← BitVec.toNat_inj, hmantissa]
    rfl
  unfold unpack
  dsimp only
  rw [ofBitVec_unpackSign]
  by_cases h : b.toNat / 2 ^ 52 % 2 ^ 11 = 2 ^ 11 - 1
  · rw [if_pos (hmax.mpr h), if_pos h]
    by_cases hf : b.toNat % 2 ^ 52 = 0
    · rw [if_pos (hfraction.mpr hf), if_pos hf]
    · rw [if_neg (mt hfraction.mp hf), if_neg hf]
  rw [if_neg (mt hmax.mp h), if_neg h]
  by_cases h0 : b.toNat / 2 ^ 52 % 2 ^ 11 = 0
  · rw [if_pos (hzero.mpr h0), if_pos h0]
    by_cases hf : b.toNat % 2 ^ 52 = 0
    · rw [dif_pos (hfraction.mpr hf), dif_pos hf]
    · rw [dif_neg (mt hfraction.mp hf), dif_neg hf]
      refine finite_congr hmantissa ?_
      rw [hexponent, h0]
      rfl
  · rw [if_neg (mt hzero.mp h0), if_neg h0]
    refine finite_congr ?_ ?_
    · rw [BitVec.toNat_append, ← Nat.shiftLeft_add_eq_or_of_lt (BitVec.isLt _), hmantissa]
      rfl
    · rw [hexponent]
      rfl

variable {b}

theorem held_of_unpack {s : Sign} {m : Nat} {e : Int} {hpos : 0 < m}
    (h : unpack binary64 b = .finite s m e hpos) : Held m e := by
  rw [unpack_eq] at h
  dsimp only at h
  by_cases hmax : b.toNat / 2 ^ 52 % 2 ^ 11 = 2 ^ 11 - 1
  · -- what is not finite is no fraction
    rw [if_pos hmax] at h
    by_cases hf : b.toNat % 2 ^ 52 = 0
    · rw [if_pos hf] at h
      cases h
    · rw [if_neg hf] at h
      cases h
  rw [if_neg hmax] at h
  by_cases h0 : b.toNat / 2 ^ 52 % 2 ^ 11 = 0
  · rw [if_pos h0] at h
    by_cases hf : b.toNat % 2 ^ 52 = 0
    · rw [dif_pos hf] at h
      cases h
    · rw [dif_neg hf] at h
      cases h
      exact ⟨hpos, by omega, by omega, by omega, .inr rfl⟩
  · rw [if_neg h0] at h
    cases h
    exact ⟨hpos, by omega, by omega, by omega, .inl (by omega)⟩

end

/-- The bits that parts stand for, as a number. -/
def bits? : UnpackedFloat → Option Nat
  | .zero s => some (s.toBitVec.toNat * 2 ^ 63)
  | .finite s m e _ => some (s.toBitVec.toNat * 2 ^ 63
      + if 2 ^ 52 ≤ m then (e + 1075).toNat * 2 ^ 52 + (m - 2 ^ 52) else m)
  | .infinity _ | .notANumber => none

/-- A finite double is given by its parts. -/
theorem toNat_of_bits? {b : BitVec 64} {n : Nat} (h : bits? (unpack binary64 b) = some n) :
    b.toNat = n := by
  have hb := b.isLt
  have hsign : (if b.toNat < 2 ^ 63 then Sign.positive else Sign.negative).toBitVec.toNat
      = b.toNat / 2 ^ 63 := by
    split
    · exact (Nat.div_eq_of_lt ‹_›).symm
    · change 1 = _
      omega
  rw [unpack_eq] at h
  dsimp only at h
  by_cases hmax : b.toNat / 2 ^ 52 % 2 ^ 11 = 2 ^ 11 - 1
  · rw [if_pos hmax] at h
    by_cases hf : b.toNat % 2 ^ 52 = 0
    · rw [if_pos hf] at h
      cases h
    · rw [if_neg hf] at h
      cases h
  rw [if_neg hmax] at h
  by_cases h0 : b.toNat / 2 ^ 52 % 2 ^ 11 = 0
  · rw [if_pos h0] at h
    by_cases hf : b.toNat % 2 ^ 52 = 0
    · rw [dif_pos hf] at h
      have h := Option.some.inj h
      rw [hsign] at h
      omega
    · rw [dif_neg hf] at h
      have h := Option.some.inj h
      rw [hsign, if_neg (by omega)] at h
      omega
  · rw [if_neg h0] at h
    have h := Option.some.inj h
    rw [hsign, if_pos (by omega)] at h
    omega

/-! ## Packing -/

theorem toNat_packComponents (s : Sign) (exponent : BitVec 11) (mantissa : BitVec 52) :
    (packComponents binary64 s exponent mantissa).toNat
      = s.toBitVec.toNat * 2 ^ 63 + exponent.toNat * 2 ^ 52 + mantissa.toNat := by
  unfold packComponents
  rw [BitVec.toNat_append, ← Nat.shiftLeft_add_eq_or_of_lt (BitVec.isLt _), BitVec.toNat_append,
    ← Nat.shiftLeft_add_eq_or_of_lt (BitVec.isLt _), Nat.shiftLeft_eq, Nat.shiftLeft_eq]
  ring

/-- The fields that are packed are unpacked. -/
theorem fields_packComponents (s : Sign) (exponent : BitVec 11) (mantissa : BitVec 52) :
    let n := (packComponents binary64 s exponent mantissa).toNat
    n / 2 ^ 52 % 2 ^ 11 = exponent.toNat ∧ n % 2 ^ 52 = mantissa.toNat ∧
      (if n < 2 ^ 63 then Sign.positive else Sign.negative) = s := by
  have hn := toNat_packComponents s exponent mantissa
  have he := exponent.isLt
  have hm := mantissa.isLt
  dsimp only
  generalize (packComponents binary64 s exponent mantissa).toNat = n at hn ⊢
  cases s with
  | positive =>
    rw [show Sign.positive.toBitVec.toNat = 0 from rfl] at hn
    exact ⟨by omega, by omega, if_pos (by omega)⟩
  | negative =>
    rw [show Sign.negative.toBitVec.toNat = 1 from rfl] at hn
    exact ⟨by omega, by omega, if_neg (by omega)⟩

theorem pack_finite (s : Sign) {m : Nat} (e : Int) (hpos : 0 < m) :
    pack binary64 (.finite s m e hpos)
      = if 2 ^ 11 ≤ (e + 1023 + (52 : Nat)).toNat + 1 then packedInfinity binary64 s
        else if m.log2 + 1 = 53 then
          packComponents binary64 s (BitVec.ofNat 11 (e + 1023 + (52 : Nat)).toNat)
            (BitVec.ofNat 52 m)
        else packComponents binary64 s 0#11 (BitVec.ofNat 52 m) :=
  rfl

/-- What a double can hold is still there when it was packed and is unpacked. -/
theorem Held.unpack_pack {m : Nat} {e : Int} (h : Held m e) (s : Sign) :
    unpack binary64 (pack binary64 (.finite s m e h.pos)) = .finite s m e h.pos := by
  obtain ⟨hpos, hlt, hleast, hgreatest, hfull⟩ := h
  have hlog : m.log2 + 1 = 53 ↔ 2 ^ 52 ≤ m := by
    have := Nat.log2_eq_iff (k := 52) hpos.ne'
    omega
  rw [pack_finite, if_neg (by omega)]
  by_cases hnormal : 2 ^ 52 ≤ m
  · obtain ⟨hexponent, hfraction, hsign⟩ := fields_packComponents s
      (BitVec.ofNat 11 (e + 1023 + (52 : Nat)).toNat) (BitVec.ofNat 52 m)
    rw [BitVec.toNat_ofNat] at hexponent hfraction
    rw [if_pos (hlog.mpr hnormal), unpack_eq]
    dsimp only
    rw [hsign, if_neg (by rw [hexponent]; omega), if_neg (by rw [hexponent]; omega)]
    refine finite_congr ?_ ?_
    · rw [hfraction]
      omega
    · rw [hexponent]
      omega
  · obtain ⟨hexponent, hfraction, hsign⟩ := fields_packComponents s 0#11 (BitVec.ofNat 52 m)
    rw [BitVec.toNat_ofNat] at hexponent hfraction
    rw [if_neg (mt hlog.mp hnormal), unpack_eq]
    dsimp only
    rw [hsign, if_neg (by rw [hexponent]; decide), if_pos hexponent,
      dif_neg (by rw [hfraction]; omega)]
    refine finite_congr ?_ ?_
    · rw [hfraction]
      omega
    · omega

/-! ## Rounding what needs none -/

theorem log2_mul_two_pow {m : Nat} (hpos : 0 < m) (k : Nat) : (m * 2 ^ k).log2 = m.log2 + k := by
  rw [Nat.log2_eq_iff (by positivity)]
  have hle := Nat.log2_self_le hpos.ne'
  have hlt := Nat.lt_log2_self (n := m)
  constructor
  · rw [Nat.pow_add]
    exact Nat.mul_le_mul_right _ hle
  · rw [Nat.add_right_comm, Nat.pow_add]
    exact Nat.mul_lt_mul_of_pos_right hlt (by positivity)

theorem shiftRight_mantissa (m k : Nat) :
    ExtendedMantissa.mk (m * 2 ^ k) false false >>> k = ⟨m, false, false⟩ := by
  induction k generalizing m with
  | zero => rw [Nat.pow_zero, Nat.mul_one]; rfl
  | succ k ih =>
    have hstep : ExtendedMantissa.mk (m * 2 ^ (k + 1)) false false >>> (k + 1)
        = (ExtendedMantissa.mk (m * 2 * 2 ^ k) false false >>> k).shiftRightOne := by
      rw [Nat.pow_succ', ← Nat.mul_assoc]
      rfl
    rw [hstep, ih]
    simp [ExtendedMantissa.shiftRightOne]

theorem Held.targetExponent_eq {m : Nat} {e : Int} (h : Held m e) (k : Nat) :
    binary64.targetExponent (totalExponent (m * 2 ^ k) (e - k)) = e := by
  obtain ⟨hpos, hlt, hleast, -, hfull⟩ := h
  have hlog := Nat.log2_lt (k := 53) hpos.ne'
  have hlog' := Nat.le_log2 (k := 52) hpos.ne'
  have hbits : binary64.mantissaBits = 53 := rfl
  have hmin : binary64.minExponent = -1074 := rfl
  unfold Format.targetExponent totalExponent
  rw [log2_mul_two_pow hpos, hbits, hmin]
  omega

theorem Held.shift_eq {m : Nat} {e : Int} (h : Held m e) (k : Nat) :
    shiftToTargetExponent binary64 (m * 2 ^ k) (e - k) .exact = (⟨m, false, false⟩, e) := by
  unfold shiftToTargetExponent shiftToExponent
  rw [h.targetExponent_eq k]
  have hk : (e - (e - k)).toNat = k := by omega
  dsimp only
  rw [hk]
  refine Prod.ext (shiftRight_mantissa m k) ?_
  dsimp only
  omega

theorem Held.round_eq {m : Nat} {e : Int} (h : Held m e) (s : Sign) (k : Nat) :
    roundWithAccuracy binary64 s (m * 2 ^ k) (e - k) .exact = .finite s m e h.pos := by
  have hagain := h.shift_eq 0
  rw [Nat.pow_zero, Nat.mul_one, Nat.cast_zero, sub_zero] at hagain
  unfold roundWithAccuracy
  rw [h.shift_eq k]
  dsimp only
  have hrounded : ExtendedMantissa.roundedMantissa ⟨m, false, false⟩ = m := rfl
  rw [hrounded, hagain]
  exact dif_neg h.pos.ne'

theorem mul_zpow_eq {m m' : Nat} {e e' : Int} (hle : e' ≤ e)
    (h : (m' : Rat) * 2 ^ e' = m * 2 ^ e) : m' = m * 2 ^ (e - e').toNat := by
  have hsplit : (2 : Rat) ^ e = 2 ^ (e - e').toNat * 2 ^ e' := by
    rw [← zpow_natCast, ← zpow_add₀ two_ne_zero]
    congr 1
    omega
  rw [hsplit, ← mul_assoc] at h
  exact_mod_cast mul_right_cancel₀ (zpow_ne_zero _ two_ne_zero) h

/-- **A value that a double can hold is not changed by rounding**, however it is written. -/
theorem Held.round_of_eq {m m' : Nat} {e e' : Int} (h : Held m e) (s : Sign)
    (hvalue : (m' : Rat) * 2 ^ e' = m * 2 ^ e) :
    UnpackedFloat.round binary64 s m' e' = .finite s m e h.pos := by
  rcases le_total e' e with hle | hle
  · -- the mantissa is too long, but ends in zeros
    have hm := mul_zpow_eq hle hvalue
    generalize hk : (e - e').toNat = k at hm
    obtain rfl : e' = e - k := by omega
    subst hm
    unfold UnpackedFloat.round decreaseExponent
    rw [h.targetExponent_eq k]
    have hnone : (e - k - e).toNat = 0 := by omega
    dsimp only
    rw [hnone, Nat.shiftLeft_zero, Nat.cast_zero, sub_zero]
    exact h.round_eq s k
  · -- the mantissa is too short, and is filled up
    have hm := mul_zpow_eq hle hvalue.symm
    generalize hk : (e' - e).toNat = k at hm
    have hpos' : 0 < m' := by
      have hpos := h.pos
      rcases Nat.eq_zero_or_pos m' with rfl | hpos'
      · omega
      · exact hpos'
    have htarget := h.targetExponent_eq 0
    unfold totalExponent at htarget
    rw [Nat.pow_zero, Nat.mul_one, Nat.cast_zero, sub_zero, hm, log2_mul_two_pow hpos'] at htarget
    unfold UnpackedFloat.round decreaseExponent totalExponent
    have hsame : (m'.log2 : Int) + 1 + e' = ((m'.log2 + k : Nat) : Int) + 1 + e := by omega
    rw [hsame, htarget]
    dsimp only
    rw [hk, Nat.shiftLeft_eq, ← hm, show e' - (k : Int) = e by omega]
    have hround := h.round_eq s 0
    rwa [Nat.pow_zero, Nat.mul_one, Nat.cast_zero, sub_zero] at hround

theorem exists_held {n : Nat} (hpos : 0 < n) (hlt : n < 2 ^ 53) :
    ∃ m e, Held m e ∧ (n : Rat) = m * 2 ^ e := by
  have hlog : n.log2 < 53 := (Nat.log2_lt hpos.ne').mpr hlt
  refine ⟨n * 2 ^ (52 - n.log2), n.log2 - 52,
    ⟨by positivity, ?_, by omega, by omega, .inl ?_⟩, ?_⟩
  · calc n * 2 ^ (52 - n.log2) < 2 ^ (n.log2 + 1) * 2 ^ (52 - n.log2) :=
          Nat.mul_lt_mul_of_pos_right Nat.lt_log2_self (by positivity)
      _ = 2 ^ 53 := by
        rw [← Nat.pow_add]
        congr 1
        omega
  · calc 2 ^ 52 = 2 ^ n.log2 * 2 ^ (52 - n.log2) := by
          rw [← Nat.pow_add]
          congr 1
          omega
      _ ≤ n * 2 ^ (52 - n.log2) := Nat.mul_le_mul_right _ (Nat.log2_self_le hpos.ne')
  · have hcancel : (2 : Rat) ^ (52 - n.log2) * 2 ^ ((n.log2 : Int) - 52) = 1 := by
      rw [← zpow_natCast, ← zpow_add₀ two_ne_zero, ← zpow_zero (2 : Rat)]
      congr 1
      omega
    push_cast
    rw [mul_assoc, hcancel, mul_one]

/-! ## Values -/

/-- A number with a sign in front. -/
def signed : Sign → Rat → Rat
  | .positive, x => x
  | .negative, x => -x

theorem cast_apply (s : Sign) (n : Int) : ((s.apply n : Int) : Rat) = signed s n := by
  cases s
  · exact Int.cast_neg n
  · rfl

/-- The value of a float, if it is finite. -/
def value? : UnpackedFloat → Option Rat
  | .zero _ => some 0
  | .finite s m e _ => some (signed s (m * 2 ^ e))
  | .infinity _ | .notANumber => none

theorem unpack_pack_zero (s : Sign) :
    unpack binary64 (pack binary64 (.zero s)) = .zero s := by
  cases s <;> rfl

theorem value?_round {M n : Nat} {e : Int} (s : Sign) (hvalue : (M : Rat) * 2 ^ e = n)
    (hpos : 0 < n) (hlt : n < 2 ^ 53) :
    value? (unpack binary64 (pack binary64 (UnpackedFloat.round binary64 s M e)))
      = some (signed s n) := by
  obtain ⟨m, e', hheld, hn⟩ := exists_held hpos hlt
  rw [hheld.round_of_eq s (hvalue.trans hn), hheld.unpack_pack, hn]
  rfl

/-- Integers stay what they are. -/
theorem value?_normalize {M n e : Int} (s : Sign) (hvalue : (M : Rat) * 2 ^ e = n)
    (hlt : |n| < 2 ^ 53) :
    value? (unpack binary64 (pack binary64 (UnpackedFloat.normalize binary64 M e s)))
      = some (n : Rat) := by
  have htwo : (0 : Rat) < 2 ^ e := by positivity
  rw [abs_lt] at hlt
  unfold UnpackedFloat.normalize
  split
  · next hneg =>
    have hM : M < 0 := compare_lt_iff_lt.mp hneg
    have hn : n < 0 := by
      have : (n : Rat) < 0 := hvalue ▸ mul_neg_of_neg_of_pos (by exact_mod_cast hM) htwo
      exact_mod_cast this
    obtain ⟨k, rfl⟩ : ∃ k : Nat, n = -k := ⟨n.natAbs, by omega⟩
    obtain ⟨K, rfl⟩ : ∃ K : Nat, M = -K := ⟨M.natAbs, by omega⟩
    have hvalue' : (K : Rat) * 2 ^ e = k := by
      push_cast at hvalue
      linarith
    rw [neg_neg, Int.toNat_natCast, value?_round .negative hvalue' (by omega) (by omega),
      Int.cast_neg]
    rfl
  · next hzero =>
    obtain rfl : M = 0 := compare_eq_iff_eq.mp hzero
    rw [Int.cast_zero, zero_mul] at hvalue
    rw [unpack_pack_zero, ← hvalue]
    rfl
  · next hposM =>
    have hM : 0 < M := compare_gt_iff_gt.mp hposM
    have hn : 0 < n := by
      have : (0 : Rat) < n := hvalue ▸ mul_pos (by exact_mod_cast hM) htwo
      exact_mod_cast this
    obtain ⟨k, rfl⟩ : ∃ k : Nat, n = k := ⟨n.natAbs, by omega⟩
    obtain ⟨K, rfl⟩ : ∃ K : Nat, M = K := ⟨M.natAbs, by omega⟩
    rw [Int.toNat_natCast, value?_round .positive (by exact_mod_cast hvalue) (by omega) (by omega)]
    rfl

/-! ## Comparing -/

theorem Held.mul_lt {m m' : Nat} {e e' : Int} (h : Held m e) (h' : Held m' e') (hlt : e < e') :
    (m : Rat) * 2 ^ e < m' * 2 ^ e' := by
  have hleast := h.least
  have hm : (m : Rat) < 2 ^ 53 := by exact_mod_cast h.lt
  have hm' : (2 : Rat) ^ 52 ≤ m' := by
    rcases h'.full with hfull | hfull
    · exact_mod_cast hfull
    · omega
  calc (m : Rat) * 2 ^ e < 2 ^ 53 * 2 ^ e := by gcongr
    _ = 2 ^ 52 * 2 ^ (e + 1) := by rw [zpow_add_one₀ two_ne_zero]; ring
    _ ≤ m' * 2 ^ e' := by
      have : (2 : Rat) ^ (e + 1) ≤ 2 ^ e' := zpow_le_zpow_right₀ (by norm_num) (by omega)
      gcongr

/-- Exponents count first, because the mantissas are full. -/
theorem Held.compare_eq {m m' : Nat} {e e' : Int} (h : Held m e) (h' : Held m' e') :
    (compare e e').then (compare m m') = compare ((m : Rat) * 2 ^ e) (m' * 2 ^ e') := by
  rcases lt_trichotomy e e' with hlt | rfl | hgt
  · rw [compare_lt_iff_lt.mpr hlt, compare_lt_iff_lt.mpr (h.mul_lt h' hlt)]
    rfl
  · have htwo : (0 : Rat) < 2 ^ e := by positivity
    rw [compare_eq_iff_eq.mpr rfl]
    -- at one exponent the mantissas decide
    rcases lt_trichotomy m m' with hm | rfl | hm
    · rw [compare_lt_iff_lt.mpr hm, compare_lt_iff_lt.mpr (by gcongr)]
      rfl
    · rw [compare_eq_iff_eq.mpr rfl, compare_eq_iff_eq.mpr rfl]
      rfl
    · rw [compare_gt_iff_gt.mpr hm, compare_gt_iff_gt.mpr (by gcongr)]
      rfl
  · rw [compare_gt_iff_gt.mpr hgt, compare_gt_iff_gt.mpr (h'.mul_lt h hgt)]
    rfl

theorem compare_neg_neg (p q : Rat) : compare (-p) (-q) = (compare p q).swap := by
  rcases lt_trichotomy p q with h | rfl | h
  · rw [compare_gt_iff_gt.mpr (neg_lt_neg h), compare_lt_iff_lt.mpr h]
    rfl
  · rw [compare_eq_iff_eq.mpr rfl, compare_eq_iff_eq.mpr rfl]
    rfl
  · rw [compare_lt_iff_lt.mpr (neg_lt_neg h), compare_gt_iff_gt.mpr h]
    rfl

/-- A float that a double can hold. -/
def Canonical (u : UnpackedFloat) : Prop := ∀ s m e hpos, u = .finite s m e hpos → Held m e

/-- **Doubles compare as their values do.** -/
theorem compare_eq : ∀ {u v : UnpackedFloat} {p q : Rat}, Canonical u → Canonical v →
    value? u = some p → value? v = some q → u.compare v = some (compare p q)
  | .zero _, .zero _, _, _, _, _, rfl, rfl => rfl
  | .zero _, .finite .positive m e hm, _, _, _, _, rfl, rfl => by
    have hpos : (0 : Rat) < m * 2 ^ e := by positivity
    exact congrArg some (compare_lt_iff_lt.mpr hpos).symm
  | .zero _, .finite .negative m e hm, _, _, _, _, rfl, rfl => by
    have hneg : (-(m * 2 ^ e) : Rat) < 0 := neg_neg_of_pos (by positivity)
    exact congrArg some (compare_gt_iff_gt.mpr hneg).symm
  | .finite .positive m e hm, .zero _, _, _, _, _, rfl, rfl => by
    have hpos : (0 : Rat) < m * 2 ^ e := by positivity
    exact congrArg some (compare_gt_iff_gt.mpr hpos).symm
  | .finite .negative m e hm, .zero _, _, _, _, _, rfl, rfl => by
    have hneg : (-(m * 2 ^ e) : Rat) < 0 := neg_neg_of_pos (by positivity)
    exact congrArg some (compare_lt_iff_lt.mpr hneg).symm
  | .finite .positive m e hm, .finite .positive m' e' hm', _, _, hu, hv, rfl, rfl =>
    congrArg some ((hu _ _ _ _ rfl).compare_eq (hv _ _ _ _ rfl))
  | .finite .negative m e hm, .finite .negative m' e' hm', _, _, hu, hv, rfl, rfl => by
    have h := (hu _ _ _ _ rfl).compare_eq (hv _ _ _ _ rfl)
    exact congrArg some ((congrArg Ordering.swap h).trans (compare_neg_neg _ _).symm)
  | .finite .positive m e hm, .finite .negative m' e' hm', _, _, _, _, rfl, rfl => by
    have hpos : (0 : Rat) < m * 2 ^ e := by positivity
    have hneg : (-(m' * 2 ^ e') : Rat) < 0 := neg_neg_of_pos (by positivity)
    exact congrArg some (compare_gt_iff_gt.mpr (hneg.trans hpos)).symm
  | .finite .negative m e hm, .finite .positive m' e' hm', _, _, _, _, rfl, rfl => by
    have hneg : (-(m * 2 ^ e) : Rat) < 0 := neg_neg_of_pos (by positivity)
    have hpos : (0 : Rat) < m' * 2 ^ e' := by positivity
    exact congrArg some (compare_lt_iff_lt.mpr (hneg.trans hpos)).symm

theorem canonical_unpack (b : BitVec 64) : Canonical (unpack binary64 b) :=
  fun _ _ _ _ h => held_of_unpack h

/-! ## Subtracting -/

theorem signed_neg (s : Sign) (x : Rat) : signed (-s) x = -signed s x := by
  cases s
  · exact (neg_neg x).symm
  · rfl

/-- A mantissa written for a smaller exponent has the same value. -/
theorem decreaseExponent_eq (s : Sign) (m : Nat) {e least : Int} (hle : least ≤ e) :
    (s.apply (decreaseExponent m e least).1 * 2 ^ least : Rat) = signed s (m * 2 ^ e) := by
  have hvalue : ((decreaseExponent m e least).1 : Rat) * 2 ^ least = m * 2 ^ e := by
    unfold decreaseExponent
    dsimp only
    rw [Nat.shiftLeft_eq, Nat.cast_mul, Nat.cast_pow, Nat.cast_ofNat, mul_assoc, ← zpow_natCast,
      ← zpow_add₀ two_ne_zero]
    congr 2
    omega
  rw [cast_apply, ← hvalue]
  cases s
  · exact neg_mul _ _
  · rfl

/-- **The difference of two doubles is exact where it is an integer that a double can hold.** -/
theorem value?_sub : ∀ {u v : UnpackedFloat} {p q : Rat} {n : Int}, Canonical u → Canonical v →
    value? u = some p → value? v = some q → p - q = n → |n| < 2 ^ 53 →
    value? (unpack binary64 (pack binary64 (sub binary64 u v))) = some (n : Rat)
  | .zero s, .zero s', _, _, n, _, _, rfl, rfl, hn, _ => by
    rw [sub_zero] at hn
    cases s <;> cases s' <;> exact congrArg some hn
  | .zero _, .finite s m e hm, _, _, n, _, hv, rfl, rfl, hn, _ => by
    rw [← hn, zero_sub, ← signed_neg]
    unfold sub
    rw [(hv _ _ _ _ rfl).unpack_pack]
    rfl
  | .finite s m e hm, .zero _, _, _, n, hu, _, rfl, rfl, hn, _ => by
    rw [← hn, sub_zero]
    unfold sub
    rw [(hu _ _ _ _ rfl).unpack_pack]
    rfl
  | .finite s m e hm, .finite s' m' e' hm', _, _, n, hu, hv, rfl, rfl, hn, hlt => by
    -- both mantissas are written for the lower exponent, and only their difference is rounded
    unfold sub
    dsimp only
    refine value?_normalize _ ?_ hlt
    rw [Int.cast_sub, sub_mul, decreaseExponent_eq s m (min_le_left e e'),
      decreaseExponent_eq s' m' (min_le_right e e'), hn]

end LeadSheet.Double
