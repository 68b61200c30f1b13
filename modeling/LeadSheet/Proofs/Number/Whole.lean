import LeadSheet.Proofs.Number.Between

/-!
# Rounding doubles to integers

A double that is an integer is one whose value is an integer, however great it is
(`integer?_iff_valueOf?`). Rounding to the nearest integer is worked out in doubles: it compares the
difference between a double and its greatest integer with one half, and that difference is rounded
itself. Still the result is right (`valueOf?_round`). A difference below one half is a double, so
that nothing is lost (`exists_held_fract`), and one that is not is not rounded below one half.
-/

namespace LeadSheet.Double

open Float.Model (UnpackedFloat)
open Float.Model.Format (binary64)
open Float.Model.UnpackedFloat

/-- A mantissa that is short enough is one that a double can hold, for any exponent of doubles. -/
theorem exists_held_mul {n : Nat} {g : Int} (hpos : 0 < n) (hlt : n < 2 ^ 53) (hleast : -1074 ≤ g)
    (hgreatest : g ≤ 971) : ∃ m e, Held m e ∧ (n : Rat) * 2 ^ g = m * 2 ^ e := by
  have hlog : n.log2 < 53 := (Nat.log2_lt hpos.ne').mpr hlt
  -- the mantissa is filled up as far as the least exponent allows
  obtain ⟨k, hk, hfull⟩ : ∃ k : Nat, n.log2 + k ≤ 52 ∧ -1074 ≤ g - k ∧
      (n.log2 + k = 52 ∨ g - k = -1074) :=
    ⟨min (52 - n.log2) (g + 1074).toNat, by omega, by omega, by omega⟩
  refine ⟨n * 2 ^ k, g - k,
    ⟨by positivity, ?_, hfull.1, by omega, hfull.2.imp_left fun h => ?_⟩, ?_⟩
  · calc n * 2 ^ k < 2 ^ (n.log2 + 1) * 2 ^ k :=
          Nat.mul_lt_mul_of_pos_right Nat.lt_log2_self (by positivity)
      _ = 2 ^ (n.log2 + 1 + k) := (Nat.pow_add ..).symm
      _ ≤ 2 ^ 53 := Nat.pow_le_pow_right (by decide) (by omega)
  · calc 2 ^ 52 = 2 ^ n.log2 * 2 ^ k := by rw [← Nat.pow_add, h]
      _ ≤ n * 2 ^ k := Nat.mul_le_mul_right _ (Nat.log2_self_le hpos.ne')
  · rw [← mul_zpow_add, sub_add_cancel]

/-! ## Integers of any size -/

theorem valueOf?_ofNat_of_held {n m : Nat} {e : Int} (h : Held m e) (hn : (n : Rat) = m * 2 ^ e) :
    valueOf? (Float.ofNat n) = some (n : Rat) := by
  have hpos : 0 < n := by
    have hm := h.pos
    have : (0 : Rat) < n := hn ▸ by positivity
    exact_mod_cast this
  have hrounds := ofScientific_rounds hpos false (e := 0) (k := 0) rfl (by omega) (by decide)
  rw [zpow_zero, mul_one, hn] at hrounds
  rw [hn]
  exact hrounds.valueOf?_eq h

/-- An integer that is the value of a double is held as it is. -/
theorem valueOf?_ofInt_of_valueOf? {x : Float} {n : Int} (hx : valueOf? x = some (n : Rat)) :
    valueOf? (Float.ofInt n) = some (n : Rat) := by
  unfold valueOf? at hx
  match hu : unpack binary64 x.toModel.toBits.toBitVec, hx with
  | .zero _, hx =>
    obtain rfl : n = 0 := by exact_mod_cast (Option.some.inj hx).symm
    exact valueOf?_ofInt (by norm_num)
  | .finite .positive m e hm, hx =>
    have hn : (m : Rat) * 2 ^ e = n := Option.some.inj hx
    have hpos : (0 : Rat) ≤ m * 2 ^ e := by positivity
    obtain ⟨k, rfl⟩ := Int.eq_ofNat_of_zero_le (by exact_mod_cast hpos.trans_eq hn : 0 ≤ n)
    exact valueOf?_ofNat_of_held (held_of_unpack hu) hn.symm
  | .finite .negative m e hm, hx =>
    have hn : -((m : Rat) * 2 ^ e) = n := Option.some.inj hx
    have hneg : (n : Rat) < 0 := hn ▸ neg_neg_of_pos (by positivity)
    obtain ⟨k, rfl⟩ : ∃ k : Nat, n = -(k + 1 : Nat) :=
      ⟨(-n - 1).toNat, by have : n < 0 := by exact_mod_cast hneg
                          omega⟩
    have hvalue : ((k + 1 : Nat) : Rat) = m * 2 ^ e := by
      have hn' : -((m : Rat) * 2 ^ e) = -((k + 1 : Nat) : Rat) := by exact_mod_cast hn
      exact (neg_inj.mp hn').symm
    have := value?_neg (canonical_unpack _) (valueOf?_ofNat_of_held (held_of_unpack hu) hvalue)
    rw [Int.cast_neg, Int.cast_natCast]
    exact this

/-- **A double is an integer if its value is one.** -/
theorem integer?_iff_valueOf? {x : Float} {n : Int} :
    Scalar.integer? x = some n ↔ valueOf? x = some (n : Rat) := by
  refine ⟨valueOf?_of_integer?, fun hx => ?_⟩
  have hle : ¬Float.ofInt n < x := by
    rw [lt_iff_valueOf? (valueOf?_ofInt_of_valueOf? hx) hx]
    exact lt_irrefl _
  unfold Scalar.integer?
  rw [floor?_eq, hx, Option.map_some, Option.bind_some, Int.floor_intCast]
  exact if_neg hle

/-! ## Rounding to an integer -/

theorem valueOf?_half : valueOf? ((1 : Float) / (2 : Float)) = some (1 / 2) := by
  have hdecode : Binary64.decode ((1 : Float) / (2 : Float)) = .finite false (2 ^ 52) (-53) := by
    decide +kernel
  refine (valueOf?_of_decode hdecode).trans (congrArg some ?_)
  norm_num

theorem held_one : Held (2 ^ 52) (-52) := ⟨by decide, by decide, by decide, by decide, .inl le_rfl⟩

theorem held_half : Held (2 ^ 52) (-53) := ⟨by decide, by decide, by decide, by decide, .inl le_rfl⟩

/-- What a double lies above its greatest integer is a double, if it is less than one half. -/
theorem exists_held_fract {x : Float} {q : Rat} (hx : valueOf? x = some q) (hpos : 0 < Int.fract q)
    (hlt : Int.fract q < 1 / 2) : ∃ m e, Held m e ∧ Int.fract q = m * 2 ^ e := by
  unfold valueOf? at hx
  match hu : unpack binary64 x.toModel.toBits.toBitVec, hx with
  | .zero _, rfl => exact absurd hpos (by simp)
  | .finite s m e hm, rfl =>
    have hheld := held_of_unpack hu
    rcases le_or_gt 0 e with hle | hneg
    · rw [← floor_signed s m hle, Int.fract_intCast] at hpos
      exact absurd hpos (lt_irrefl 0)
    rcases le_or_gt (-53) e with hnear | hfar
    · -- both are multiples of the last place of the double, and few enough of them
      obtain ⟨k, rfl⟩ : ∃ k : Nat, e = -k := ⟨(-e).toNat, by omega⟩
      have htwo : (0 : Rat) < 2 ^ k := by positivity
      generalize hz : s.apply m - ⌊signed s (m * 2 ^ (-(k : Int)))⌋ * 2 ^ k = z
      have hvalue : Int.fract (signed s (m * 2 ^ (-(k : Int)))) = z * 2 ^ (-(k : Int)) := by
        rw [Int.fract, ← hz, zpow_neg, zpow_natCast]
        push_cast
        rw [cast_apply, sub_mul, mul_assoc, mul_inv_cancel₀ htwo.ne', mul_one]
        congr 1
        cases s
        · exact (neg_mul _ _).symm
        · rfl
      rw [hvalue, zpow_neg, zpow_natCast, ← div_eq_mul_inv] at hpos hlt
      have hzpos : 0 < z := by exact_mod_cast (div_pos_iff_of_pos_right htwo).mp hpos
      have hzlt : z < 2 ^ 53 := by
        have hk : (2 : Rat) ^ k ≤ 2 ^ 53 := pow_le_pow_right₀ one_le_two (by omega)
        rw [div_lt_iff₀ htwo] at hlt
        have : (z : Rat) < 2 ^ 53 := by linarith
        exact_mod_cast this
      obtain ⟨j, rfl⟩ := Int.eq_ofNat_of_zero_le hzpos.le
      rw [hvalue]
      exact exists_held_mul (by omega) (by omega) (by omega) (by omega)
    · -- the double is less than one half itself
      have hsmall : (m : Rat) * 2 ^ e < 1 / 2 := by
        calc (m : Rat) * 2 ^ e < 2 ^ (e + 53) := hheld.mul_lt_two_pow
          _ ≤ 2 ^ (-1 : Int) := zpow_le_zpow_right₀ one_le_two (by omega)
          _ = 1 / 2 := by norm_num
      have hmul : (0 : Rat) < m * 2 ^ e := by positivity
      cases s with
      | positive =>
        refine ⟨m, e, hheld, Int.fract_eq_self.mpr ⟨hmul.le, ?_⟩⟩
        rw [signed]
        linarith
      | negative =>
        have hfloor : ⌊signed .negative ((m : Rat) * 2 ^ e)⌋ = -1 := by
          rw [Int.floor_eq_iff, signed]
          push_cast
          constructor <;> linarith
        rw [Int.fract, hfloor, signed] at hlt
        push_cast at hlt
        linarith

/-- The difference between a double and its greatest integer is one half or more if its rounded
value is. -/
theorem exists_value_fract {x y : Float} {q : Rat} (hx : valueOf? x = some q)
    (hy : valueOf? y = some (⌊q⌋ : Rat)) :
    ∃ p, valueOf? (x - y) = some p ∧ (1 / 2 ≤ p ↔ 1 / 2 ≤ Int.fract q) := by
  rcases (Int.fract_nonneg q).eq_or_lt with hzero | hpos
  · refine ⟨(0 : Int), valueOf?_sub hx hy ?_ (by norm_num), ?_⟩
    · rw [Int.cast_zero]
      exact hzero.symm
    · rw [← hzero, Int.cast_zero]
  · have hrounds : RoundsTo (Int.fract q) (x - y) := sub_roundsTo hx hy (sub_pos.mp hpos)
    rcases lt_or_ge (Int.fract q) (1 / 2) with hlt | hge
    · obtain ⟨m, e, hheld, heq⟩ := exists_held_fract hx hpos hlt
      rw [heq] at hrounds hlt ⊢
      exact ⟨_, hrounds.valueOf?_eq hheld, Iff.rfl⟩
    · have hone : Int.fract q ≤ (2 ^ 52 : Nat) * 2 ^ (-52 : Int) := by
        refine (Int.fract_lt_one q).le.trans_eq ?_
        norm_num
      obtain ⟨p, hp, -, -, habove⟩ := hrounds.exists_value held_one hone
      have hhalf : ((2 ^ 52 : Nat) : Rat) * 2 ^ (-53 : Int) = 1 / 2 := by norm_num
      have := habove _ _ held_half (hhalf.le.trans hge)
      exact ⟨p, hp, iff_of_true (hhalf.ge.trans this) hge⟩

/-- The greatest integer below a double, and the next one if it is needed, are doubles. -/
theorem valueOf?_ofInt_floor {x : Float} {q : Rat} (hx : valueOf? x = some q) :
    valueOf? (Float.ofInt ⌊q⌋) = some (⌊q⌋ : Rat) ∧
      (1 / 2 ≤ Int.fract q →
        valueOf? (Float.ofInt (⌊q⌋ + 1)) = some ((⌊q⌋ + 1 : Int) : Rat)) := by
  rcases floor_eq_or_abs_lt hx with heq | hlt
  · refine ⟨valueOf?_ofInt_of_valueOf? (heq ▸ hx), fun hfract => ?_⟩
    rw [Int.fract, heq, sub_self] at hfract
    norm_num at hfract
  · refine ⟨valueOf?_ofInt hlt, fun _ => ?_⟩
    rcases (Int.add_one_le_of_lt (abs_lt.mp hlt).2).eq_or_lt with hmax | hmax
    · -- the power of two behind the last mantissa
      rw [hmax]
      have hheld : Held (2 ^ 52) 1 := ⟨by decide, by decide, by decide, by decide, .inl le_rfl⟩
      exact valueOf?_ofNat_of_held (n := 2 ^ 53) hheld (by norm_num)
    · exact valueOf?_ofInt (by rw [abs_lt] at hlt ⊢; omega)

/-- **A double is rounded to the nearest integer**, halves upward. -/
theorem valueOf?_round {x : Float} {q : Rat} (hx : valueOf? x = some q) :
    valueOf? (Scalar.round x) = some (⌊q + 1 / 2⌋ : Rat) := by
  obtain ⟨hfloor, hnext⟩ := valueOf?_ofInt_floor hx
  obtain ⟨p, hp, hiff⟩ := exists_value_fract hx hfloor
  have hcompare := le_iff_valueOf? valueOf?_half hp
  have hsum := Int.floor_add_fract q
  have hlt := Int.fract_lt_one q
  have hnonneg := Int.fract_nonneg q
  unfold Scalar.round
  rw [floor?_eq, hx, Option.map_some]
  dsimp only
  change valueOf? (if (1 : Float) / 2 ≤ x - Float.ofInt ⌊q⌋ then Float.ofInt (⌊q⌋ + 1)
    else Float.ofInt ⌊q⌋) = _
  by_cases hhalf : 1 / 2 ≤ Int.fract q
  · have hround : ⌊q + 1 / 2⌋ = ⌊q⌋ + 1 := by
      rw [Int.floor_eq_iff]
      push_cast
      constructor <;> linarith
    rw [if_pos (hcompare.mpr (hiff.mpr hhalf)), hnext hhalf, hround]
  · have hround : ⌊q + 1 / 2⌋ = ⌊q⌋ := by
      rw [Int.floor_eq_iff]
      constructor <;> linarith
    rw [if_neg (fun h => hhalf (hiff.mp (hcompare.mp h))), hfloor, hround]

theorem integer?_round {x : Float} {q : Rat} (hx : valueOf? x = some q) :
    Scalar.integer? (Scalar.round x) = some ⌊q + 1 / 2⌋ :=
  integer?_iff_valueOf?.mpr (valueOf?_round hx)

/-- **A number is rounded twice as it is rounded once**, if there is a double between it and the
next half integer. -/
theorem RoundsTo.integer?_round {q : Rat} {x : Float} (h : RoundsTo q x) {k m : Nat} {e : Int}
    (hlow : (k : Rat) - 1 / 2 ≤ q) (hk : k < 2 ^ 52) (hheld : Held m e) (hle : q ≤ m * 2 ^ e)
    (hhigh : (m : Rat) * 2 ^ e < k + 1 / 2) :
    Scalar.integer? (Scalar.round x) = some (k : Int) := by
  obtain ⟨p, hp, hnonneg, hbelow, habove⟩ := h.exists_value hheld hle
  have hfloor : (k : Rat) - 1 / 2 ≤ p := by
    cases k with
    | zero =>
      rw [Nat.cast_zero]
      linarith
    | succ k =>
      -- the half integer below is a double itself
      obtain ⟨m', e', hheld', hhalf⟩ := exists_held_mul (n := 2 * k + 1) (g := -1) (by omega)
        (by omega) (by decide) (by decide)
      have hvalue : ((k + 1 : Nat) : Rat) - 1 / 2 = m' * 2 ^ e' := by
        rw [← hhalf, zpow_neg_one]
        push_cast
        ring
      rw [hvalue] at hlow ⊢
      exact habove m' e' hheld' hlow
  rw [Double.integer?_round hp, (Int.floor_eq_iff.mpr ⟨?_, ?_⟩ : ⌊p + 1 / 2⌋ = (k : Int))]
  · rw [Int.cast_natCast]
    linarith
  · rw [Int.cast_natCast]
    linarith

end LeadSheet.Double
