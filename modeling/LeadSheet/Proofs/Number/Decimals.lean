import LeadSheet.Proofs.Number.Doubles
import LeadSheet.Proofs.Number.Nearest

/-!
# Decimals as doubles

The double of a decimal is the one nearest to it (`ofScientific_rounds`), whether it is worked out
from two doubles, as it is where digits and power of ten both are held, or from long integers.
So a decimal in the interval of a double gives that double (`RoundsTo.unpack_of_near`).
-/

namespace LeadSheet.Double

open Float.Model (Format UnpackedFloat totalExponent)
open Float.Model.Format (binary64)
open Float.Model.UnpackedFloat

/-! ## Products and quotients -/

/-- Of two mantissas, one of which is full, the product is long enough to be rounded. -/
theorem rounds_mul (s s' : Sign) {m m' : Nat} (e e' : Int) (hm : 0 < m) (hm' : 0 < m')
    (hfull : 2 ^ 52 ≤ m * m') :
    Rounds (s * s') (m * 2 ^ e * (m' * 2 ^ e'))
      (mul binary64 (.finite s m e hm) (.finite s' m' e' hm')) := by
  have hlog : 52 ≤ (m * m').log2 := (Nat.le_log2 (by omega)).mpr hfull
  have hexact : Accurate (m * m') (m * m') .exact := (Nat.cast_mul m m').symm
  have hrounds := rounds_roundWithAccuracy (e := e + e') (s * s') hexact
    (by rw [targetExponent_eq]; omega)
  have hvalue : (m : Rat) * m' * 2 ^ (e + e') = m * 2 ^ e * (m' * 2 ^ e') := by
    rw [zpow_add₀ two_ne_zero]
    ring
  rw [hvalue] at hrounds
  exact hrounds

theorem accurate_div (m : Nat) {d : Nat} (hpos : 0 < d) :
    Accurate (m / d) ((m : Rat) / d) (accuracyOfFraction (m % d) d) := by
  have hd : (0 : Rat) < d := by exact_mod_cast hpos
  have hvalue : (m : Rat) / d = ((m / d : Nat) : Rat) + ((m % d : Nat) : Rat) / d := by
    rw [div_eq_iff hd.ne', add_mul, div_mul_cancel₀ _ hd.ne']
    exact_mod_cast (Nat.div_add_mod' m d).symm
  have hlt : ((m % d : Nat) : Rat) / d < 1 := by
    rw [div_lt_one hd]
    exact_mod_cast Nat.mod_lt m hpos
  rw [hvalue]
  generalize m % d = n at hlt
  unfold accuracyOfFraction
  by_cases hzero : n = 0
  · rw [if_pos hzero, hzero, Nat.cast_zero, zero_div, add_zero]
    rfl
  · rw [if_neg hzero]
    have hn : (0 : Rat) < n / d := by
      have : (0 : Rat) < n := by exact_mod_cast Nat.pos_of_ne_zero hzero
      positivity
    cases hcompare : compare (2 * n) d with
    | lt =>
      have h : (2 : Rat) * n < d := by exact_mod_cast compare_lt_iff_lt.mp hcompare
      have hhalf : (n : Rat) / d < 1 / 2 := by
        rw [div_lt_iff₀ hd]
        linarith
      exact ⟨by linarith, by linarith⟩
    | eq =>
      have h : (2 : Rat) * n = d := by exact_mod_cast compare_eq_iff_eq.mp hcompare
      have hhalf : (n : Rat) / d = 1 / 2 := by
        rw [div_eq_iff hd.ne']
        linarith
      exact congrArg _ hhalf
    | gt =>
      have h : (d : Rat) < 2 * n := by exact_mod_cast compare_gt_iff_gt.mp hcompare
      have hhalf : (1 : Rat) / 2 < n / d := by
        rw [lt_div_iff₀ hd]
        linarith
      exact ⟨by linarith, by linarith⟩

/-- A quotient has enough places to be rounded, or as many as there are. -/
theorem le_targetExponent_div {m m' : Nat} (hm : 0 < m) (hm' : 0 < m') {t : Int} {k : Nat}
    {e e' : Int} (hk : e - e' - k = t)
    (ht : t ≤ binary64.targetExponent (totalExponent m e - totalExponent m' e')) :
    t ≤ binary64.targetExponent (totalExponent (m * 2 ^ k / m') t) := by
  rw [targetExponent_eq]
  have hbits : binary64.mantissaBits = 53 := rfl
  have hmin : binary64.minExponent = -1074 := rfl
  unfold Format.targetExponent totalExponent at ht
  rw [hbits, hmin] at ht
  rcases le_or_gt t (-1074) with hleast | hlarge
  · exact hleast.trans (le_max_right _ _)
  · have hshift : m'.log2 + 1 + 52 ≤ m.log2 + k := by omega
    have hquotient : 2 ^ 52 ≤ m * 2 ^ k / m' := by
      rw [Nat.le_div_iff_mul_le hm']
      calc 2 ^ 52 * m' ≤ 2 ^ 52 * 2 ^ (m'.log2 + 1) :=
            Nat.mul_le_mul_left _ Nat.lt_log2_self.le
        _ = 2 ^ (m'.log2 + 1 + 52) := by rw [← Nat.pow_add, Nat.add_comm]
        _ ≤ 2 ^ (m.log2 + k) := Nat.pow_le_pow_right (by decide) hshift
        _ = 2 ^ m.log2 * 2 ^ k := Nat.pow_add _ _ _
        _ ≤ m * 2 ^ k := Nat.mul_le_mul_right _ (Nat.log2_self_le hm.ne')
    have hlog : 52 ≤ (m * 2 ^ k / m').log2 := (Nat.le_log2 (by omega)).mpr hquotient
    omega

theorem rounds_div (s s' : Sign) {m m' : Nat} (e e' : Int) (hm : 0 < m) (hm' : 0 < m') :
    Rounds (s / s') (m * 2 ^ e / (m' * 2 ^ e'))
      (div binary64 (.finite s m e hm) (.finite s' m' e' hm')) := by
  unfold div divCore
  dsimp only
  generalize ht : min (e - e')
    (binary64.targetExponent (totalExponent m e - totalExponent m' e')) = t
  generalize hk : (e - e' - t).toNat = k
  have hk : e - e' - k = t := by omega
  rw [Nat.shiftLeft_eq]
  have hrounds := rounds_roundWithAccuracy (s / s') (accurate_div (m * 2 ^ k) hm')
    (le_targetExponent_div hm hm' hk (by omega))
  have hvalue : ((m * 2 ^ k : Nat) : Rat) / m' * 2 ^ t = m * 2 ^ e / (m' * 2 ^ e') := by
    have hm0 : (m' : Rat) ≠ 0 := by exact_mod_cast hm'.ne'
    obtain rfl : e = t + k + e' := by omega
    rw [zpow_add₀ two_ne_zero, zpow_add₀ two_ne_zero, zpow_natCast]
    push_cast
    field_simp
  rw [hvalue] at hrounds
  exact hrounds

/-! ## Numerals -/

/-- A positive number rounds to the double. -/
def RoundsTo (q : Rat) (x : Float) : Prop :=
  ∃ u, Rounds .positive q u ∧ x = .ofModel (.pack u)

theorem exists_finite_of_valueOf? {x : Float} {q : Rat} (hx : valueOf? x = some q) (hpos : 0 < q) :
    ∃ m e, ∃ h : Held m e,
      unpack binary64 x.toModel.toBits.toBitVec = .finite .positive m e h.pos ∧ q = m * 2 ^ e := by
  unfold valueOf? at hx
  match hu : unpack binary64 x.toModel.toBits.toBitVec, hx with
  | .zero _, rfl => exact absurd hpos (lt_irrefl _)
  | .finite .positive m e hm, rfl => exact ⟨m, e, held_of_unpack hu, rfl, rfl⟩
  | .finite .negative m e hm, rfl =>
    have : (0 : Rat) ≤ m * 2 ^ e := by positivity
    exact absurd hpos (not_lt.mpr (neg_nonpos.mpr this))

theorem valueOf?_of_decode {x : Float} {m : Nat} {e : Int}
    (hx : Binary64.decode x = .finite false m e) : valueOf? x = some (m * 2 ^ e : Rat) := by
  rw [decode_eq] at hx
  unfold valueOf?
  match hu : unpack binary64 x.toModel.toBits.toBitVec, hx with
  | .zero .positive, h =>
    cases h
    rw [Nat.cast_zero, zero_mul]
    rfl
  | .finite .positive m e hm, h =>
    cases h
    rfl

theorem le_mul_of_held {m m' : Nat} {e e' : Int} (h : Held m e) (h' : Held m' e')
    (hone : (1 : Rat) ≤ m * 2 ^ e) : 2 ^ 52 ≤ m * m' := by
  have hfull : 2 ^ 52 ≤ m := by
    refine h.full.resolve_right ?_
    rintro rfl
    have hm : (m : Rat) < 2 ^ 53 := by exact_mod_cast h.lt
    have hsmall : (m : Rat) * 2 ^ (-1074 : Int) < 2 ^ 53 * 2 ^ (-53 : Int) := by
      refine (mul_lt_mul_of_pos_right hm (zpow_pos two_pos _)).trans_le ?_
      exact mul_le_mul_of_nonneg_left (zpow_le_zpow_right₀ one_le_two (by decide)) (by norm_num)
    have : (2 : Rat) ^ 53 * 2 ^ (-53 : Int) = 1 := by norm_num
    linarith
  exact hfull.trans (Nat.le_mul_of_pos_right _ h'.pos)

section

variable {x y : Float} {p q : Rat} (hx : valueOf? x = some p) (hy : valueOf? y = some q)

include hx hy

theorem mul_roundsTo (hp : 1 ≤ p) (hq : 0 < q) : RoundsTo (p * q) (x * y) := by
  obtain ⟨m, e, hheld, hu, rfl⟩ := exists_finite_of_valueOf? hx (zero_lt_one.trans_le hp)
  obtain ⟨m', e', hheld', hu', rfl⟩ := exists_finite_of_valueOf? hy hq
  refine ⟨_, ?_, rfl⟩
  unfold Float.Model.unpack
  rw [hu, hu']
  exact rounds_mul .positive .positive e e' hheld.pos hheld'.pos (le_mul_of_held hheld hheld' hp)

theorem div_roundsTo (hp : 0 < p) (hq : 0 < q) : RoundsTo (p / q) (x / y) := by
  obtain ⟨m, e, hheld, hu, rfl⟩ := exists_finite_of_valueOf? hx hp
  obtain ⟨m', e', hheld', hu', rfl⟩ := exists_finite_of_valueOf? hy hq
  refine ⟨_, ?_, rfl⟩
  unfold Float.Model.unpack
  rw [hu, hu']
  exact rounds_div .positive .positive e e' hheld.pos hheld'.pos

end

/-- The powers of ten that are looked up are exact. -/
theorem decode_powersOfTen : ∀ k : Fin Float.exactlyRepresentablePowersOfTen.size,
    Binary64.decode Float.exactlyRepresentablePowersOfTen[k]
      = .finite false (5 ^ k.val * 2 ^ (52 - (5 ^ k.val).log2))
        (k.val - ((52 - (5 ^ k.val).log2 : Nat) : Int)) := by
  decide +kernel

theorem valueOf?_powersOfTen {k : Nat} (hk : k < Float.exactlyRepresentablePowersOfTen.size) :
    valueOf? Float.exactlyRepresentablePowersOfTen[k] = some ((10 : Rat) ^ k) := by
  refine (valueOf?_of_decode (decode_powersOfTen ⟨k, hk⟩)).trans (congrArg some ?_)
  dsimp only
  rw [zpow_sub₀ two_ne_zero, zpow_natCast, zpow_natCast]
  push_cast
  rw [show (10 : Rat) = 5 * 2 by norm_num, mul_pow]
  field_simp

/-- Long digits, or a long power of ten, are multiplied or divided as integers. -/
theorem rounds_ofScientific {m : Nat} (hpos : 0 < m) {e : Int} (hlow : -(2048 + (m.log2 : Int)) ≤ e)
    (hhigh : e ≤ 2048) : Rounds .positive (m * 10 ^ e) (ofScientific binary64 m e) := by
  unfold ofScientific
  have hhigh' : ¬2 ^ binary64.exponentBits < e := not_lt.mpr hhigh
  have hlow' : ¬e < -((2 ^ binary64.exponentBits : Int) + m.log2) := not_lt.mpr hlow
  rw [dif_neg hpos.ne', if_neg hhigh', if_neg hlow']
  rcases le_or_gt 0 e with hle | hlt
  · rw [if_pos hle]
    obtain ⟨k, rfl⟩ := Int.eq_ofNat_of_zero_le hle
    have hbits : (2 : Rat) ^ 53 * 2 ^ (-(binary64.mantissaBits : Int)) = 1 := by
      change (2 : Rat) ^ 53 * 2 ^ (-53 : Int) = 1
      norm_num
    have hshift : ((m <<< binary64.mantissaBits : Nat) : Rat) = m * 2 ^ 53 := by
      rw [Nat.shiftLeft_eq]
      push_cast
      rfl
    have hvalue : (m : Rat) * 10 ^ (k : Int)
        = (m <<< binary64.mantissaBits : Nat) * 2 ^ (-(binary64.mantissaBits : Int))
          * ((10 ^ (k : Int).toNat : Nat) * 2 ^ (0 : Int)) := by
      rw [hshift, mul_assoc (m : Rat), hbits, mul_one, zpow_zero, mul_one, Int.toNat_natCast,
        zpow_natCast]
      push_cast
      rfl
    rw [hvalue]
    refine rounds_mul .positive .positive _ _ _ _ ?_
    calc 2 ^ 52 ≤ m * 2 ^ 53 * 1 := by omega
      _ ≤ m <<< binary64.mantissaBits * 10 ^ (k : Int).toNat := by
        rw [Nat.shiftLeft_eq]
        exact Nat.mul_le_mul_left _ (Nat.one_le_pow _ _ (by decide))
  · rw [if_neg (not_le.mpr hlt)]
    obtain ⟨k, rfl⟩ : ∃ k : Nat, e = -k := ⟨(-e).toNat, by omega⟩
    have hvalue : (m : Rat) * 10 ^ (-(k : Int))
        = m * 2 ^ (0 : Int) / ((10 ^ (- -(k : Int)).toNat : Nat) * 2 ^ (0 : Int)) := by
      rw [zpow_zero, mul_one, mul_one, neg_neg, Int.toNat_natCast, zpow_neg, zpow_natCast,
        ← div_eq_mul_inv]
      push_cast
      rfl
    rw [hvalue]
    exact rounds_div .positive .positive 0 0 _ _

/-- **The double of a decimal is the nearest one**, unless the power of ten is so great or so small
that it is not worked out. -/
theorem ofScientific_rounds {m : Nat} (hpos : 0 < m) (s : Bool) {e : Nat} {k : Int}
    (hk : (if s then -(e : Int) else e) = k) (hlow : -(2048 + (m.log2 : Int)) ≤ k)
    (hhigh : k ≤ 2048) : RoundsTo (m * 10 ^ k) (Float.ofScientific m s e) := by
  subst hk
  have hm : (1 : Rat) ≤ m := by exact_mod_cast hpos
  unfold Float.ofScientific
  by_cases hfast : m < 2 ^ 53 ∧ e ≤ 22
  · -- digits and power are doubles
    have hdigits := valueOf?_toFloat hfast.1
    have hpower := valueOf?_powersOfTen (Nat.lt_succ_of_le hfast.2)
    have hten : (0 : Rat) < 10 ^ e := by positivity
    rw [dif_pos hfast]
    cases s with
    | true =>
      rw [if_pos rfl, if_pos rfl, zpow_neg, zpow_natCast, ← div_eq_mul_inv]
      exact div_roundsTo hdigits hpower (zero_lt_one.trans_le hm) hten
    | false =>
      rw [if_neg Bool.false_ne_true, if_neg Bool.false_ne_true, zpow_natCast]
      exact mul_roundsTo hdigits hpower hm hten
  · rw [dif_neg hfast]
    refine ⟨_, ?_, rfl⟩
    cases s with
    | true =>
      rw [if_pos rfl] at hlow hhigh ⊢
      rw [if_pos rfl, Int.negOfNat_eq]
      exact rounds_ofScientific hpos hlow hhigh
    | false =>
      rw [if_neg Bool.false_ne_true] at hlow hhigh ⊢
      rw [if_neg Bool.false_ne_true]
      exact rounds_ofScientific hpos hlow hhigh

/-! ## Consequences -/

section

variable {q : Rat} {x : Float}

/-- A decimal in the interval of a double gives the double. -/
theorem RoundsTo.unpack_of_near (h : RoundsTo q x) {m : Nat} {e : Int} (hheld : Held m e)
    (hnear : Near m e q) :
    unpack binary64 x.toModel.toBits.toBitVec = .finite .positive m e hheld.pos := by
  obtain ⟨u, hrounds, rfl⟩ := h
  rw [hrounds.eq_of_near hheld hnear]
  exact hheld.unpack_pack .positive

end

end LeadSheet.Double
