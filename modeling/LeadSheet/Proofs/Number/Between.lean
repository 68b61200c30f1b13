import LeadSheet.Proofs.Number.Decimals

/-!
# Rounding keeps the order

A number that lies between two doubles is rounded to a double that lies between them. For doubles of
the size of the number this is so because its mantissa is rounded to a nearest integer, and a
nearest integer does not pass integers (`Nearest.le_of_le`, `Nearest.ge_of_ge`); greater and lesser
doubles are out of reach (`Held.rounded_le`, `Held.le_rounded`). So what is known of a quotient, a
sum or a difference before it is rounded is known of the double too, as long as the bounds are
doubles (`RoundsTo.exists_value`).
-/

namespace LeadSheet.Double

open Float.Model (UnpackedFloat totalExponent)
open Float.Model.Format (binary64)
open Float.Model.UnpackedFloat

/-! ## Nearest integers -/

section

variable {r n : Nat} {y : Rat}

theorem Nearest.le_of_le (h : Nearest r y) (hy : y ≤ n) : r ≤ n := by
  have hlow := h.low
  have hlt : (r : Rat) < (n + 1 : Nat) := by
    push_cast
    linarith
  exact Nat.lt_succ_iff.mp (by exact_mod_cast hlt)

theorem Nearest.ge_of_ge (h : Nearest r y) (hy : (n : Rat) ≤ y) : n ≤ r := by
  have hhigh := h.high
  have hlt : (n : Rat) < (r + 1 : Nat) := by
    push_cast
    linarith
  exact Nat.lt_succ_iff.mp (by exact_mod_cast hlt)

end

/-! ## Doubles around a number -/

theorem value?_rounded (s : Sign) (r : Nat) (t : Int) :
    value? (rounded s r t) = some (signed s (r * 2 ^ t)) := by
  unfold rounded
  by_cases hzero : r = 0
  · subst hzero
    rw [dif_pos rfl, Nat.cast_zero, zero_mul]
    cases s with
    | positive => rfl
    | negative => exact congrArg some neg_zero.symm
  · rw [dif_neg hzero]
    by_cases hmax : r = 2 ^ 53
    · subst hmax
      rw [if_pos rfl]
      change some (signed s ((2 ^ 52 : Nat) * 2 ^ (t + 1))) = _
      rw [zpow_add_one₀ two_ne_zero]
      congr 2
      push_cast
      ring
    · rw [if_neg hmax]
      rfl

/-- A value in units of a lower place. -/
theorem mul_zpow_add (m k : Nat) (t : Int) :
    (m : Rat) * 2 ^ (t + (k : Int)) = (m * 2 ^ k : Nat) * 2 ^ t := by
  rw [zpow_add₀ two_ne_zero, zpow_natCast]
  push_cast
  ring

theorem Held.mul_lt_two_pow {m : Nat} {e : Int} (h : Held m e) :
    (m : Rat) * 2 ^ e < 2 ^ (e + 53) := by
  have hm : (m : Rat) < 2 ^ 53 := by exact_mod_cast h.lt
  rw [zpow_add₀ two_ne_zero, mul_comm]
  exact mul_lt_mul_of_pos_left hm (by positivity)

section

variable {m : Nat} {e : Int} {x : Rat} {t : Int} {r : Nat} (h : Held m e) (hscaled : Scaled x t)
  (hnearest : Nearest r (x / 2 ^ t))

include h hscaled hnearest

/-- A number is not rounded below a double that it is not below. -/
theorem Held.le_rounded (hle : (m : Rat) * 2 ^ e ≤ x) : (m : Rat) * 2 ^ e ≤ r * 2 ^ t := by
  have htwo : (0 : Rat) < 2 ^ t := by positivity
  rcases le_or_gt t e with hte | hte
  · -- the double is so many units of the number's last place
    obtain ⟨k, rfl⟩ : ∃ k : Nat, e = t + k := ⟨(e - t).toNat, by omega⟩
    rw [mul_zpow_add] at hle ⊢
    have hge := hnearest.ge_of_ge ((le_div_iff₀ htwo).mpr hle)
    exact mul_le_mul_of_nonneg_right (by exact_mod_cast hge) htwo.le
  · -- the double is less than all numbers of this size
    have hleast := h.least
    have hfull : (2 ^ 52 : Rat) ≤ r := by
      exact_mod_cast (hnearest.ge_of_scaled hscaled).resolve_left (by omega)
    calc (m : Rat) * 2 ^ e ≤ 2 ^ (e + 53) := h.mul_lt_two_pow.le
      _ ≤ 2 ^ (t + 52) := zpow_le_zpow_right₀ one_le_two (by omega)
      _ = 2 ^ 52 * 2 ^ t := by
        rw [zpow_add₀ two_ne_zero, mul_comm]
        rfl
      _ ≤ r * 2 ^ t := mul_le_mul_of_nonneg_right hfull htwo.le

/-- A number is not rounded above a double that it is not above. -/
theorem Held.rounded_le (hle : x ≤ (m : Rat) * 2 ^ e) : (r : Rat) * 2 ^ t ≤ m * 2 ^ e := by
  have htwo : (0 : Rat) < 2 ^ t := by positivity
  rcases le_or_gt t e with hte | hte
  · obtain ⟨k, rfl⟩ : ∃ k : Nat, e = t + k := ⟨(e - t).toNat, by omega⟩
    rw [mul_zpow_add] at hle ⊢
    have hge := hnearest.le_of_le ((div_le_iff₀ htwo).mpr hle)
    exact mul_le_mul_of_nonneg_right (by exact_mod_cast hge) htwo.le
  · -- a number of this size is not below the double
    have hleast := h.least
    have hfull := hscaled.full.resolve_left (by omega)
    have : (2 : Rat) ^ (e + 53) ≤ 2 ^ (t + 52) := zpow_le_zpow_right₀ one_le_two (by omega)
    exact absurd (hfull.trans hle) (not_le.mpr (h.mul_lt_two_pow.trans_le this))

end

/-- What is rounded to something that is not too great is rounded to a double. -/
theorem rounded_held {x : Rat} {t : Int} {r : Nat} (hscaled : Scaled x t)
    (hnearest : Nearest r (x / 2 ^ t)) (hpos : r ≠ 0) (hlt : (r : Rat) * 2 ^ t < 2 ^ (1024 : Int))
    (s : Sign) : ∃ m e, ∃ h : Held m e, rounded s r t = .finite s m e h.pos := by
  have hleast := hscaled.least
  have hle := hnearest.le_of_scaled hscaled
  have hfull := hnearest.ge_of_scaled hscaled
  have hbound : t = -1074 ∨ t < 972 := by
    refine hfull.imp_right fun hge => ?_
    have hr : (2 : Rat) ^ 52 ≤ r := by exact_mod_cast hge
    have hpow : (2 : Rat) ^ (t + 52) < 2 ^ (1024 : Int) := by
      calc (2 : Rat) ^ (t + 52) = 2 ^ 52 * 2 ^ t := by
            rw [zpow_add₀ two_ne_zero, mul_comm]
            rfl
        _ ≤ r * 2 ^ t := mul_le_mul_of_nonneg_right hr (by positivity)
        _ < 2 ^ (1024 : Int) := hlt
    have := (zpow_lt_zpow_iff_right₀ one_lt_two).mp hpow
    omega
  unfold rounded
  rw [dif_neg hpos]
  by_cases hmax : r = 2 ^ 53
  · have hnext : t + 1 ≤ 971 := by
      subst hmax
      have hpow : (2 : Rat) ^ (t + 53) < 2 ^ (1024 : Int) := by
        refine lt_of_eq_of_lt ?_ hlt
        rw [zpow_add₀ two_ne_zero, mul_comm]
        push_cast
        rfl
      have := (zpow_lt_zpow_iff_right₀ one_lt_two).mp hpow
      omega
    rw [if_pos hmax]
    exact ⟨2 ^ 52, t + 1, ⟨by decide, by decide, by omega, hnext, .inl le_rfl⟩, rfl⟩
  · rw [if_neg hmax]
    exact ⟨r, t, ⟨by omega, by omega, hleast, by omega, hfull.symm⟩, rfl⟩

/-- What is rounded is a double, as long as it is not too great. -/
theorem value?_pack_rounded {q : Rat} {t : Int} {r : Nat} (hscaled : Scaled q t)
    (hnearest : Nearest r (q / 2 ^ t)) (hlt : (r : Rat) * 2 ^ t < 2 ^ (1024 : Int)) (s : Sign) :
    value? (unpack binary64 (pack binary64 (rounded s r t))) = some (signed s (r * 2 ^ t)) := by
  have hself : unpack binary64 (pack binary64 (rounded s r t)) = rounded s r t := by
    by_cases hzero : r = 0
    · rw [rounded, dif_pos hzero, unpack_pack_zero]
    · obtain ⟨m, e, hheld, heq⟩ := rounded_held hscaled hnearest hzero hlt s
      rw [heq, hheld.unpack_pack]
  rw [hself, value?_rounded]

/-- **A number that is not above a double is rounded to a double that is not above it either**, and
that is not below any double the number is not below. -/
theorem RoundsTo.exists_value {q : Rat} {x : Float} (h : RoundsTo q x) {m : Nat} {e : Int}
    (hheld : Held m e) (hle : q ≤ m * 2 ^ e) :
    ∃ p, valueOf? x = some p ∧ 0 ≤ p ∧ p ≤ m * 2 ^ e ∧
      ∀ m' e', Held m' e' → (m' : Rat) * 2 ^ e' ≤ q → (m' : Rat) * 2 ^ e' ≤ p := by
  obtain ⟨u, ⟨t, r, hscaled, hnearest, rfl⟩, rfl⟩ := h
  have hlower : (0 : Rat) ≤ r * 2 ^ t := by positivity
  have hupper := hheld.rounded_le hscaled hnearest hle
  have hgreatest := hheld.greatest
  have hlt : (r : Rat) * 2 ^ t < 2 ^ (1024 : Int) :=
    hupper.trans_lt (hheld.mul_lt_two_pow.trans_le (zpow_le_zpow_right₀ one_le_two (by omega)))
  exact ⟨_, value?_pack_rounded hscaled hnearest hlt .positive, hlower, hupper,
    fun m' e' hheld' hle' => hheld'.le_rounded hscaled hnearest hle'⟩

/-- A double is rounded to itself. -/
theorem RoundsTo.valueOf?_eq {x : Float} {m : Nat} {e : Int} (h : RoundsTo (m * 2 ^ e) x)
    (hheld : Held m e) : valueOf? x = some ((m : Rat) * 2 ^ e) := by
  obtain ⟨p, hp, -, hle, hge⟩ := h.exists_value hheld le_rfl
  rw [hp, le_antisymm hle (hge m e hheld le_rfl)]

/-! ## Sums and differences -/

/-- A mantissa of any length is rounded as the number it stands for. -/
theorem rounds_round (s : Sign) {m : Nat} (hm : 0 < m) (e : Int) :
    Rounds s (m * 2 ^ e) (UnpackedFloat.round binary64 s m e) := by
  unfold UnpackedFloat.round decreaseExponent
  dsimp only
  generalize hk : (e - binary64.targetExponent (totalExponent m e)).toNat = k
  have hvalue : (m : Rat) * 2 ^ e = (m <<< k : Nat) * 2 ^ (e - (k : Int)) := by
    rw [Nat.shiftLeft_eq, zpow_sub₀ two_ne_zero, zpow_natCast]
    push_cast
    field_simp
  have htotal : totalExponent (m <<< k) (e - k) = totalExponent m e := by
    unfold totalExponent
    rw [Nat.shiftLeft_eq, log2_mul_two_pow hm]
    omega
  rw [hvalue]
  exact rounds_roundWithAccuracy (a := .exact) s rfl (by rw [htotal]; omega)

theorem Held.rounds {m : Nat} {e : Int} (h : Held m e) (s : Sign) :
    Rounds s (m * 2 ^ e) (.finite s m e h.pos) := by
  have := rounds_round s h.pos e
  rwa [h.round_of_eq s rfl] at this

theorem rounds_add : ∀ {u v : UnpackedFloat} {p q : Rat}, Canonical u → Canonical v →
    value? u = some p → value? v = some q → 0 < p + q →
      Rounds .positive (p + q) (add binary64 u v)
  | .zero _, .zero _, _, _, _, _, rfl, rfl, hpos => absurd hpos (by simp)
  | .zero _, .finite s m e hm, _, _, _, hv, rfl, rfl, hpos => by
    rw [zero_add] at hpos ⊢
    cases s with
    | positive => exact (hv _ _ _ _ rfl).rounds .positive
    | negative => exact absurd hpos (not_lt.mpr (neg_nonpos.mpr (by positivity)))
  | .finite s m e hm, .zero _, _, _, hu, _, rfl, rfl, hpos => by
    rw [add_zero] at hpos ⊢
    cases s with
    | positive => exact (hu _ _ _ _ rfl).rounds .positive
    | negative => exact absurd hpos (not_lt.mpr (neg_nonpos.mpr (by positivity)))
  | .finite s m e hm, .finite s' m' e' hm', _, _, _, _, rfl, rfl, hsum => by
    -- both mantissas are written for the lower exponent, and only their sum is rounded
    unfold add
    dsimp only
    generalize hd : s.apply (decreaseExponent m e (min e e')).1
      + s'.apply (decreaseExponent m' e' (min e e')).1 = d
    have hvalue : (d : Rat) * 2 ^ min e e' = signed s (m * 2 ^ e) + signed s' (m' * 2 ^ e') := by
      rw [← hd, Int.cast_add, add_mul, decreaseExponent_eq s m (min_le_left e e'),
        decreaseExponent_eq s' m' (min_le_right e e')]
    have hpos : 0 < d := by
      have htwo : (0 : Rat) < 2 ^ min e e' := by positivity
      have : (0 : Rat) < d * 2 ^ min e e' := hvalue ▸ hsum
      exact_mod_cast (mul_pos_iff_of_pos_right htwo).mp this
    obtain ⟨k, rfl⟩ := Int.eq_ofNat_of_zero_le hpos.le
    rw [← hvalue, UnpackedFloat.normalize, compare_gt_iff_gt.mpr hpos]
    exact rounds_round .positive (by omega) _

/-- What is subtracted is added with the other sign. -/
theorem sub_eq_add : ∀ u v : UnpackedFloat, sub binary64 u v = add binary64 u v.neg
  | .notANumber, _ => rfl
  | .infinity _, .notANumber | .infinity _, .infinity _ | .infinity _, .zero _
  | .infinity _, .finite _ _ _ _ => rfl
  | .zero _, .notANumber | .zero _, .infinity _ | .zero _, .zero _ | .zero _, .finite _ _ _ _ => rfl
  | .finite _ _ _ _, .notANumber | .finite _ _ _ _, .infinity _ | .finite _ _ _ _, .zero _ => rfl
  | .finite _ _ _ _, .finite .positive _ _ _ => rfl
  | .finite s m e _, .finite .negative m' e' _ => by
    unfold sub add UnpackedFloat.neg
    dsimp only
    exact congrArg (UnpackedFloat.normalize binary64 · _ _) (Int.sub_neg _ _)

theorem Canonical.neg {v : UnpackedFloat} (h : Canonical v) : Canonical v.neg := by
  intro s m e hpos heq
  cases v with
  | finite s' m' e' hm' =>
    cases heq
    exact h _ _ _ _ rfl
  | _ => cases heq

theorem value?_unpacked_neg : ∀ {v : UnpackedFloat} {q : Rat}, value? v = some q →
    value? v.neg = some (-q)
  | .zero _, _, rfl => by rw [neg_zero]; rfl
  | .finite s m e _, _, rfl => congrArg some (signed_neg s (m * 2 ^ e))

/-- **The sum of two doubles is rounded.** -/
theorem add_roundsTo {x y : Float} {p q : Rat} (hx : valueOf? x = some p)
    (hy : valueOf? y = some q) (hpos : 0 < p + q) : RoundsTo (p + q) (x + y) :=
  ⟨_, rounds_add (canonical_unpack _) (canonical_unpack _) hx hy hpos, rfl⟩

/-- **The difference of two doubles is rounded.** -/
theorem sub_roundsTo {x y : Float} {p q : Rat} (hx : valueOf? x = some p)
    (hy : valueOf? y = some q) (hlt : q < p) : RoundsTo (p - q) (x - y) := by
  refine ⟨sub binary64 (unpack binary64 x.toModel.toBits.toBitVec)
    (unpack binary64 y.toModel.toBits.toBitVec), ?_, rfl⟩
  rw [sub_eq_add, sub_eq_add_neg]
  exact rounds_add (canonical_unpack _) (canonical_unpack _).neg hx (value?_unpacked_neg hy)
    (by linarith)

end LeadSheet.Double
