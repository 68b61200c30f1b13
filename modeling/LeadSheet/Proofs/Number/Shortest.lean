import LeadSheet.Number.Shortest
import LeadSheet.Proofs.Number.Digits
import LeadSheet.Proofs.Number.Nearest

/-!
# The shortest decimal of a double reads back

The search for a decimal compares integers: the ends of a double's interval and a multiple of a
power of ten, all over one denominator. Here it is shown that these comparisons ask what they are
meant to ask, whether the decimal rounds to the double (`contains_iff`), and that the search finds
one: on the grid of seventeen digits neighbours are closer together than the interval is long
(`exists_onGrid`). Together, `Shortest.decimal` is a decimal that rounds to the double
(`near_decimal`).
-/

namespace LeadSheet.Double

open Shortest

/-! ## The interval as fractions -/

section

variable {m : Nat} {e : Int}

theorem denominator_pos (m : Nat) (e : Int) : 0 < (interval m e).denominator := by
  change 0 < 2 ^ (2 - e).toNat
  positivity

/-- The ends and the middle of the interval have the factor four, for the quarters. -/
theorem factor_div_denominator (e : Int) :
    ((2 ^ (e - 2).toNat : Nat) : Rat) / (2 ^ (2 - e).toNat : Nat) = 2 ^ e / 4 := by
  push_cast
  rw [← zpow_natCast, ← zpow_natCast, ← zpow_sub₀ two_ne_zero,
    show ((e - 2).toNat : Int) - (2 - e).toNat = e - 2 by omega, zpow_sub₀ two_ne_zero]
  norm_num

theorem middle_div_denominator (m : Nat) (e : Int) :
    ((interval m e).middle : Rat) / (interval m e).denominator = m * 2 ^ e := by
  have h := factor_div_denominator e
  change ((4 * m * 2 ^ (e - 2).toNat : Nat) : Rat) / (2 ^ (2 - e).toNat : Nat) = _
  rw [Nat.cast_mul, mul_div_assoc, h]
  push_cast
  ring

theorem low_div_denominator (hpos : 0 < m) :
    ((interval m e).low : Rat) / (interval m e).denominator = (m - below m e / 4) * 2 ^ e := by
  have h := factor_div_denominator e
  have hle : below m e ≤ 4 * m := by
    unfold below
    split <;> omega
  change (((4 * m - below m e) * 2 ^ (e - 2).toNat : Nat) : Rat) / (2 ^ (2 - e).toNat : Nat) = _
  rw [Nat.cast_mul, mul_div_assoc, h, Nat.cast_sub hle]
  push_cast
  ring

theorem high_div_denominator (m : Nat) (e : Int) :
    ((interval m e).high : Rat) / (interval m e).denominator = (m + 1 / 2) * 2 ^ e := by
  have h := factor_div_denominator e
  change (((4 * m + 2) * 2 ^ (e - 2).toNat : Nat) : Rat) / (2 ^ (2 - e).toNat : Nat) = _
  rw [Nat.cast_mul, mul_div_assoc, h]
  push_cast
  ring

/-- A power of ten as a fraction of two integers, one of which is one. -/
theorem ten_zpow (k : Int) :
    (10 : Rat) ^ k = ((10 ^ k.toNat : Nat) : Rat) / (10 ^ (-k).toNat : Nat) := by
  push_cast
  rw [← zpow_natCast, ← zpow_natCast, ← zpow_sub₀ (by norm_num)]
  congr 1
  omega

/-- A point of a grid, and an end of the interval, over one denominator. -/
theorem scaled_le_iff {d : Nat} (hd : 0 < d) (a count : Nat) (k : Int) :
    a * 10 ^ (-k).toNat ≤ count * (d * 10 ^ k.toNat) ↔ (a : Rat) / d ≤ count * 10 ^ k := by
  have hd' : (0 : Rat) < d := by exact_mod_cast hd
  have hten : (0 : Rat) < (10 ^ (-k).toNat : Nat) := by positivity
  rw [ten_zpow, ← mul_div_assoc, div_le_div_iff₀ hd' hten, mul_assoc, mul_comm (_ : Rat) (d : Rat)]
  exact_mod_cast Iff.rfl

theorem le_scaled_iff {d : Nat} (hd : 0 < d) (a count : Nat) (k : Int) :
    count * (d * 10 ^ k.toNat) ≤ a * 10 ^ (-k).toNat ↔ count * (10 : Rat) ^ k ≤ a / d := by
  have hd' : (0 : Rat) < d := by exact_mod_cast hd
  have hten : (0 : Rat) < (10 ^ (-k).toNat : Nat) := by positivity
  rw [ten_zpow, ← mul_div_assoc, div_le_div_iff₀ hten hd', mul_assoc, mul_comm (_ : Rat) (d : Rat)]
  exact_mod_cast Iff.rfl

/-- **The search asks whether a decimal rounds to the double.** -/
theorem contains_iff (hpos : 0 < m) (count : Nat) (k : Int) :
    contains (interval m e) count k = true ↔ Near m e (count * 10 ^ k) := by
  have hd := denominator_pos m e
  have hlow := scaled_le_iff hd (interval m e).low count k
  have hhigh := le_scaled_iff hd (interval m e).high count k
  have hlow' := le_scaled_iff hd (interval m e).low count k
  have hhigh' := scaled_le_iff hd (interval m e).high count k
  rw [low_div_denominator hpos] at hlow hlow'
  rw [high_div_denominator] at hhigh hhigh'
  have hclosed : (interval m e).closed = decide (m % 2 = 0) := rfl
  unfold contains Near
  dsimp only
  rw [hclosed]
  by_cases heven : m % 2 = 0
  · rw [decide_eq_true heven, if_pos rfl, if_pos heven, Bool.and_eq_true, decide_eq_true_iff,
      decide_eq_true_iff]
    exact and_congr hlow hhigh
  · rw [decide_eq_false heven, if_neg Bool.false_ne_true, if_neg heven, Bool.and_eq_true,
      decide_eq_true_iff, decide_eq_true_iff, ← not_le, ← not_le, ← not_le, ← not_le]
    exact and_congr (not_congr hlow') (not_congr hhigh')

/-! ## Grids -/

theorem near_of_lt {x : Rat} (hlow : (m - below m e / 4) * 2 ^ e < x)
    (hhigh : x < (m + 1 / 2) * 2 ^ e) : Near m e x := by
  unfold Near
  split
  · exact ⟨hlow.le, hhigh.le⟩
  · exact ⟨hlow, hhigh⟩

/-- Of the two neighbours of a double on a fine grid, one rounds to the double. -/
theorem near_or_near (hheld : Held m e) {p g : Rat} (hlow : p ≤ m * 2 ^ e)
    (hhigh : m * 2 ^ e < p + g) (hfine : g * 10 ^ 16 ≤ m * 2 ^ e) :
    Near m e p ∨ Near m e (p + g) := by
  have htwo : (0 : Rat) < 2 ^ e := by positivity
  have hlt : (m : Rat) < 2 ^ 53 := by exact_mod_cast hheld.lt
  by_cases hp : (m - below m e / 4 : Rat) * 2 ^ e < p
  · exact .inl (near_of_lt hp (by linarith))
  · -- the lower neighbour lies below the interval, so the upper one cannot lie above it
    right
    have hp := not_lt.mp hp
    have hbelow := below_pos m e
    have hg : g < (below m e / 4 + 1 / 2) * 2 ^ e := by
      unfold below
      split
      · next hm =>
        have hm : (m : Rat) = 2 ^ 52 := by exact_mod_cast hm.1
        rw [hm] at hfine
        norm_num at hfine ⊢
        linarith
      · have := mul_lt_mul_of_pos_right hlt htwo
        norm_num at this hfine ⊢
        linarith
    refine near_of_lt (lt_of_le_of_lt ?_ hhigh) ?_
    · exact mul_le_mul_of_nonneg_right (by linarith) htwo.le
    · calc p + g < (m - below m e / 4) * 2 ^ e + (below m e / 4 + 1 / 2) * 2 ^ e :=
            add_lt_add_of_le_of_lt hp hg
        _ = (m + 1 / 2) * 2 ^ e := by ring

theorem near_of_onGrid? (hpos : 0 < m) {k : Int} {count : Nat}
    (h : onGrid? (interval m e) k = some count) : Near m e (count * 10 ^ k) := by
  rw [← contains_iff hpos]
  unfold onGrid? at h
  dsimp only at h
  split at h
  · next hdown hup =>
    split at h
    · cases h
      exact hdown
    · cases h
      exact hup
  · next hdown _ =>
    cases h
    exact hdown
  · next _ hup =>
    cases h
    exact hup
  · cases h

/-- **A fine grid has a point that rounds to the double.** -/
theorem exists_onGrid (hheld : Held m e) {k : Int} (hfine : (10 : Rat) ^ k * 10 ^ 16 ≤ m * 2 ^ e) :
    ∃ count, onGrid? (interval m e) k = some count := by
  have hd := denominator_pos m e
  unfold onGrid?
  dsimp only
  generalize hstep : (interval m e).denominator * Nat.pow 10 k.toNat = step
  generalize hmiddle : (interval m e).middle * Nat.pow 10 (-k).toNat = middle
  have hpos : 0 < step := by
    rw [← hstep]
    exact Nat.mul_pos hd (Nat.pow_pos (by decide))
  generalize hdown : middle / step = down
  have hle : down * step ≤ middle := hdown ▸ Nat.div_mul_le_self middle step
  have hlt : ¬(down + 1) * step ≤ middle := by
    rw [← hdown, not_le]
    exact Nat.lt_mul_of_div_lt (Nat.lt_succ_self _) hpos
  have hlow : (down : Rat) * 10 ^ k ≤ m * 2 ^ e := by
    rw [← middle_div_denominator, ← le_scaled_iff hd]
    rwa [← hstep, ← hmiddle] at hle
  have hhigh : (m : Rat) * 2 ^ e < down * 10 ^ k + 10 ^ k := by
    rw [← middle_div_denominator, ← add_one_mul, ← not_le]
    rw [← hstep, ← hmiddle] at hlt
    have := le_scaled_iff hd (interval m e).middle (down + 1) k
    push_cast at this
    rwa [← this]
  have hnear := near_or_near hheld hlow hhigh hfine
  have hdown := contains_iff (m := m) (e := e) hheld.pos down k
  have hup := contains_iff (m := m) (e := e) hheld.pos (down + 1) k
  rw [Nat.cast_add, Nat.cast_one, add_one_mul] at hup
  rw [← hdown, ← hup] at hnear
  split
  · split
    · exact ⟨_, rfl⟩
    · exact ⟨_, rfl⟩
  · exact ⟨_, rfl⟩
  · exact ⟨_, rfl⟩
  · next hnone hnone' =>
    rw [hnone, hnone'] at hnear
    simp at hnear

/-! ## The decimal that is found -/

/-- The power of ten of the first digit is no greater than the number. -/
theorem ten_zpow_leadingExponent_le {i : Interval} (hmiddle : 0 < i.middle)
    (hdenominator : 0 < i.denominator) :
    (10 : Rat) ^ leadingExponent i ≤ (i.middle : Rat) / i.denominator := by
  unfold leadingExponent
  dsimp only
  generalize hshift : i.denominator.log2 + 1 - i.middle.log2 = shift
  have hge : i.denominator ≤ i.middle * 10 ^ shift := by
    calc i.denominator ≤ 2 ^ (i.denominator.log2 + 1) := Nat.lt_log2_self.le
      _ ≤ 2 ^ (i.middle.log2 + shift) := Nat.pow_le_pow_right (by decide) (by omega)
      _ = 2 ^ i.middle.log2 * 2 ^ shift := Nat.pow_add _ _ _
      _ ≤ i.middle * 10 ^ shift :=
        Nat.mul_le_mul (Nat.log2_self_le hmiddle.ne') (Nat.pow_le_pow_left (by decide) _)
  have hquotient : 0 < i.middle * Nat.pow 10 shift / i.denominator := Nat.div_pos hge hdenominator
  have hlength : 0 < (Nat.toDigits 10 (i.middle * Nat.pow 10 shift / i.denominator)).length :=
    Nat.length_toDigits_pos
  have hdigits := ten_pow_le_of_pos hquotient
  generalize (Nat.toDigits 10 (i.middle * Nat.pow 10 shift / i.denominator)).length = length
    at hdigits hlength
  have hle : 10 ^ (length - 1) * i.denominator ≤ i.middle * 10 ^ shift :=
    (Nat.mul_le_mul_right _ hdigits).trans (Nat.div_mul_le_self _ _)
  have hd : (0 : Rat) < i.denominator := by exact_mod_cast hdenominator
  have hten : (0 : Rat) < 10 ^ shift := by positivity
  rw [show (length : Int) - 1 - shift = ((length - 1 : Nat) : Int) - (shift : Int) by omega,
    zpow_sub₀ (by norm_num), zpow_natCast, zpow_natCast, div_le_div_iff₀ hten hd]
  exact_mod_cast hle

theorem stripZeros_eq (digits : Nat) (k : Int) :
    ((Decimal.stripZeros digits k).digits : Rat) * 10 ^ (Decimal.stripZeros digits k).exponent
      = digits * 10 ^ k := by
  induction digits, k using Decimal.stripZeros.induct with
  | case1 digits k h ih =>
    unfold Decimal.stripZeros
    rw [dif_pos h, ih, zpow_add_one₀ (by norm_num)]
    have hten : ((digits / 10 : Nat) : Rat) * 10 = digits := by
      exact_mod_cast Nat.div_mul_cancel (Nat.dvd_of_mod_eq_zero h.2)
    rw [← hten]
    ring
  | case2 digits k h =>
    unfold Decimal.stripZeros
    rw [dif_neg h]

theorem Near.pos (hheld : Held m e) {x : Rat} (h : Near m e x) : 0 < x := by
  have hm : (1 : Rat) ≤ m := by exact_mod_cast hheld.pos
  have hbelow := below_le m e
  have htwo : (0 : Rat) < 2 ^ e := by positivity
  exact (mul_pos (by linarith) htwo).trans_le h.bounds.1

/-- **The decimal that is written for a double rounds to it.** -/
theorem near_decimal (hheld : Held m e) :
    0 < (decimal m e).digits ∧
      Near m e ((decimal m e).digits * 10 ^ (decimal m e).exponent) := by
  have hmiddle : 0 < (interval m e).middle := by
    change 0 < 4 * m * 2 ^ (e - 2).toNat
    have := hheld.pos
    positivity
  have hleading := ten_zpow_leadingExponent_le hmiddle (denominator_pos m e)
  rw [middle_div_denominator] at hleading
  -- the search ends at the finest grid at the latest
  obtain ⟨last, hlast⟩ := exists_onGrid hheld (k := leadingExponent (interval m e) - (16 : Nat)) (by
    rw [zpow_sub₀ (by norm_num), zpow_natCast, div_mul_cancel₀ _ (by positivity)]
    exact hleading)
  have hnear : Near m e ((decimal m e).digits * 10 ^ (decimal m e).exponent) := by
    unfold decimal
    dsimp only
    cases hfound : (List.range 17).findSome? fun (extra : Nat) =>
        (onGrid? (interval m e) (leadingExponent (interval m e) - extra)).map fun count =>
          Decimal.stripZeros count (leadingExponent (interval m e) - extra) with
    | none =>
      have hnone := List.findSome?_eq_none_iff.mp hfound 16 (List.mem_range.mpr (by decide))
      rw [hlast] at hnone
      cases hnone
    | some d =>
      obtain ⟨extra, -, hextra⟩ := List.exists_of_findSome?_eq_some hfound
      obtain ⟨count, hcount, rfl⟩ := Option.map_eq_some_iff.mp hextra
      rw [Option.getD_some, stripZeros_eq]
      exact near_of_onGrid? hheld.pos hcount
  refine ⟨Nat.pos_of_ne_zero fun hzero => ?_, hnear⟩
  have hpos := hnear.pos hheld
  rw [hzero, Nat.cast_zero, zero_mul] at hpos
  exact lt_irrefl _ hpos

end

end LeadSheet.Double
