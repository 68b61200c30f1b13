import LeadSheet.Proofs.Number.Rounding
import Mathlib.Tactic.NormNum
import Mathlib.Tactic.Linarith

/-!
# Rounding to the nearest double

Every operation on doubles works out a mantissa that may leave something out, and rounds. Here what
is left out is followed through the shifts (`Accurate.shiftRight`), and rounding is described by the
number that is rounded alone: `Rounds s x u` says that `u` is the multiple of a power of two that
is nearest to `x`, the power being the one that doubles of this size have as exponent. How the
number was written does not matter.

Which numbers round to a given double is an interval (`Near`), and a number in it rounds to nothing
else (`Rounds.eq_of_near`).
-/

namespace LeadSheet.Double

open Float.Model (Format UnpackedFloat totalExponent)
open Float.Model.Format (binary64)
open Float.Model.UnpackedFloat

/-! ## What a mantissa leaves out -/

/-- The number lies in the unit above a mantissa, where the accuracy says. -/
def Accurate (m : Nat) (y : Rat) : Accuracy → Prop
  | .exact => y = m
  | .inexact .lt => (m : Rat) < y ∧ y < m + 1 / 2
  | .inexact .eq => y = m + 1 / 2
  | .inexact .gt => (m : Rat) + 1 / 2 < y ∧ y < m + 1

section

variable {m : Nat} {y : Rat} {a : Accuracy}

theorem Accurate.bounds (h : Accurate m y a) : (m : Rat) ≤ y ∧ y < m + 1 := by
  match a, h with
  | .exact, h =>
    subst h
    exact ⟨le_rfl, lt_add_one _⟩
  | .inexact .lt, ⟨hlow, hhigh⟩ => exact ⟨hlow.le, by linarith⟩
  | .inexact .eq, h =>
    subst h
    exact ⟨by linarith, by linarith⟩
  | .inexact .gt, ⟨hlow, hhigh⟩ => exact ⟨by linarith, hhigh⟩

theorem accuracy_ofMantissaAndAccuracy (m : Nat) (a : Accuracy) :
    (ExtendedMantissa.ofMantissaAndAccuracy m a).mantissa = m ∧
      (ExtendedMantissa.ofMantissaAndAccuracy m a).accuracy = a := by
  match a with
  | .exact | .inexact .lt | .inexact .eq | .inexact .gt => exact ⟨rfl, rfl⟩

/-- The bit that is shifted out takes part in the accuracy. -/
theorem Accurate.shiftRightOne {em : ExtendedMantissa} (h : Accurate em.mantissa y em.accuracy) :
    Accurate em.shiftRightOne.mantissa (y / 2) em.shiftRightOne.accuracy := by
  obtain ⟨m, roundBit, stickyBit⟩ := em
  have hbounds := h.bounds
  rcases Nat.mod_two_eq_zero_or_one m with hparity | hparity
  · have hm : (m : Rat) = 2 * ((m / 2 : Nat) : Rat) := by
      exact_mod_cast (by omega : m = 2 * (m / 2))
    simp only [ExtendedMantissa.shiftRightOne, hparity] at hbounds ⊢
    cases roundBit <;> cases stickyBit
    case false.false =>
      change y = m at h
      change y / 2 = _
      linarith
    case true.false =>
      change y = m + 1 / 2 at h
      exact ⟨by linarith, by linarith⟩
    all_goals
      obtain ⟨hlow, _⟩ := h
      exact ⟨by linarith, by linarith⟩
  · have hm : (m : Rat) = 2 * ((m / 2 : Nat) : Rat) + 1 := by
      exact_mod_cast (by omega : m = 2 * (m / 2) + 1)
    simp only [ExtendedMantissa.shiftRightOne, hparity] at hbounds ⊢
    cases roundBit <;> cases stickyBit
    case false.false =>
      change y = m at h
      change y / 2 = _ + 1 / 2
      linarith
    case true.false =>
      change y = m + 1 / 2 at h
      exact ⟨by linarith, by linarith⟩
    all_goals
      obtain ⟨hlow, _⟩ := h
      exact ⟨by linarith, by linarith⟩

theorem Accurate.shiftRight {em : ExtendedMantissa} (h : Accurate em.mantissa y em.accuracy)
    (k : Nat) : Accurate (em >>> k).mantissa (y / 2 ^ k) (em >>> k).accuracy := by
  induction k with
  | zero =>
    rw [pow_zero, div_one]
    exact h
  | succ k ih =>
    rw [pow_succ, ← div_div]
    exact ih.shiftRightOne

end

/-! ## Nearest integers -/

/-- An integer nearest to a number; the even one if there are two. -/
structure Nearest (r : Nat) (y : Rat) : Prop where
  low : (r : Rat) - 1 / 2 ≤ y
  high : y ≤ r + 1 / 2
  even : y = r - 1 / 2 ∨ y = r + 1 / 2 → r % 2 = 0

section

variable {r r' : Nat} {y y' : Rat}

/-- A lesser number has no greater nearest integer. -/
theorem Nearest.le (h : Nearest r y) (h' : Nearest r' y') (hle : y ≤ y') : r ≤ r' := by
  by_contra hlt
  have hcast : (r' : Rat) + 1 ≤ r := by exact_mod_cast not_le.mp hlt
  have hlow := h.low
  have hhigh := h'.high
  -- both numbers lie half way between the two, and then both are even
  have hr : (r : Rat) = r' + 1 := by linarith
  have heven := h.even (.inl (by linarith))
  have heven' := h'.even (.inr (by linarith))
  have : r = r' + 1 := by exact_mod_cast hr
  omega

theorem Nearest.unique (h : Nearest r y) (h' : Nearest r' y) : r = r' :=
  le_antisymm (h.le h' le_rfl) (h'.le h le_rfl)

theorem nearest_self (n : Nat) : Nearest n n :=
  ⟨by linarith, by linarith, fun h => by rcases h with h | h <;> linarith⟩

theorem Accurate.nearest {m : Nat} {a : Accuracy} (h : Accurate m y a) :
    Nearest (a.roundToNearestEven m) y := by
  match a, h with
  | .exact, h =>
    subst h
    exact nearest_self m
  | .inexact .lt, ⟨hlow, hhigh⟩ =>
    change Nearest m _
    exact ⟨by linarith, by linarith, fun h => by rcases h with h | h <;> linarith⟩
  | .inexact .eq, h =>
    subst h
    change Nearest (m + m % 2) _
    rcases Nat.mod_two_eq_zero_or_one m with hparity | hparity
    · rw [hparity]
      exact ⟨by push_cast; linarith, by push_cast; linarith, fun _ => by omega⟩
    · rw [hparity]
      exact ⟨by push_cast; linarith, by push_cast; linarith, fun _ => by omega⟩
  | .inexact .gt, ⟨hlow, hhigh⟩ =>
    change Nearest (m + 1) _
    refine ⟨by push_cast; linarith, by push_cast; linarith, fun h => ?_⟩
    push_cast at h
    rcases h with h | h <;> linarith

end

/-! ## Exponents -/

/-- The exponent of doubles as great as a number. -/
structure Scaled (x : Rat) (t : Int) : Prop where
  least : -1074 ≤ t
  lt : x < 2 ^ (t + 53)
  full : t = -1074 ∨ (2 : Rat) ^ (t + 52) ≤ x

section

variable {x x' : Rat} {t t' : Int}

/-- A lesser number has no greater exponent. -/
theorem Scaled.le (h : Scaled x t) (h' : Scaled x' t') (hle : x ≤ x') : t ≤ t' := by
  rcases h.full with rfl | hfull
  · exact h'.least
  · have hlt := (zpow_lt_zpow_iff_right₀ one_lt_two).mp ((hfull.trans hle).trans_lt h'.lt)
    omega

theorem Scaled.unique (h : Scaled x t) (h' : Scaled x t') : t = t' :=
  le_antisymm (h.le h' le_rfl) (h'.le h le_rfl)

theorem targetExponent_eq (m : Nat) (e : Int) :
    binary64.targetExponent (totalExponent m e) = max ((m.log2 : Int) + e - 52) (-1074) := by
  have hbits : binary64.mantissaBits = 53 := rfl
  have hmin : binary64.minExponent = -1074 := rfl
  unfold Format.targetExponent totalExponent
  rw [hbits, hmin]
  omega

/-- Doubles have the exponent to which mantissas are shifted. -/
theorem scaled_targetExponent {m : Nat} {e : Int} {y : Rat} (hlow : (m : Rat) ≤ y)
    (hhigh : y < m + 1) (hle : e ≤ binary64.targetExponent (totalExponent m e)) :
    Scaled (y * 2 ^ e) (binary64.targetExponent (totalExponent m e)) := by
  rw [targetExponent_eq] at hle ⊢
  have htwo : (0 : Rat) < 2 ^ e := by positivity
  refine ⟨le_max_right _ _, ?_, ?_⟩
  · have hm : (m : Rat) + 1 ≤ 2 ^ ((m.log2 : Int) + 1) := by
      have h := Nat.lt_log2_self (n := m)
      exact_mod_cast Nat.succ_le_of_lt h
    calc y * 2 ^ e < 2 ^ ((m.log2 : Int) + 1) * 2 ^ e :=
          mul_lt_mul_of_pos_right (hhigh.trans_le hm) htwo
      _ = 2 ^ ((m.log2 : Int) + 1 + e) := (zpow_add₀ two_ne_zero _ _).symm
      _ ≤ 2 ^ (max ((m.log2 : Int) + e - 52) (-1074) + 53) :=
          zpow_le_zpow_right₀ one_le_two (by omega)
  · rcases le_or_gt ((m.log2 : Int) + e - 52) (-1074) with hsmall | hlarge
    · exact .inl (max_eq_right hsmall)
    · right
      rw [max_eq_left hlarge.le] at hle ⊢
      have hm : m ≠ 0 := by
        rintro rfl
        rw [show Nat.log2 0 = 0 from rfl] at hle
        omega
      have hlog : (2 : Rat) ^ (m.log2 : Int) ≤ m := by exact_mod_cast Nat.log2_self_le hm
      calc (2 : Rat) ^ ((m.log2 : Int) + e - 52 + 52) = 2 ^ ((m.log2 : Int) + e) := by
            rw [sub_add_cancel]
        _ = 2 ^ (m.log2 : Int) * 2 ^ e := zpow_add₀ two_ne_zero _ _
        _ ≤ y * 2 ^ e := mul_le_mul_of_nonneg_right (hlog.trans hlow) htwo.le

end

/-! ## Rounding -/

/-- The float for a rounded mantissa. One that became too long is a power of two, and is written for
the next exponent. -/
def rounded (s : Sign) (r : Nat) (t : Int) : UnpackedFloat :=
  if h : r = 0 then .zero s
  else if r = 2 ^ 53 then .finite s (2 ^ 52) (t + 1) (by decide)
  else .finite s r t (Nat.pos_of_ne_zero h)

/-- A number, which is not negative, rounds to the float, with a sign in front. -/
def Rounds (s : Sign) (x : Rat) (u : UnpackedFloat) : Prop :=
  ∃ t r, Scaled x t ∧ Nearest r (x / 2 ^ t) ∧ u = rounded s r t

theorem Scaled.div_lt {x : Rat} {t : Int} (h : Scaled x t) : x / 2 ^ t < 2 ^ 53 := by
  rw [div_lt_iff₀ (by positivity)]
  calc x < 2 ^ (t + 53) := h.lt
    _ = 2 ^ 53 * 2 ^ t := by
      rw [zpow_add₀ two_ne_zero, mul_comm]
      rfl

theorem Scaled.le_div {x : Rat} {t : Int} (h : Scaled x t) : t = -1074 ∨ 2 ^ 52 ≤ x / 2 ^ t := by
  refine h.full.imp_right fun hfull => ?_
  rw [le_div_iff₀ (by positivity)]
  calc (2 : Rat) ^ 52 * 2 ^ t = 2 ^ (t + 52) := by
        rw [zpow_add₀ two_ne_zero, mul_comm]
        rfl
    _ ≤ x := hfull

section

variable {x : Rat} {t : Int} {r : Nat} (hscaled : Scaled x t) (hnearest : Nearest r (x / 2 ^ t))

include hscaled hnearest

theorem Nearest.le_of_scaled : r ≤ 2 ^ 53 := by
  have hlow := hnearest.low
  have hlt := hscaled.div_lt
  have : (r : Rat) < (2 ^ 53 + 1 : Nat) := by
    push_cast
    linarith
  exact Nat.lt_succ_iff.mp (by exact_mod_cast this)

theorem Nearest.ge_of_scaled : t = -1074 ∨ 2 ^ 52 ≤ r := by
  refine hscaled.le_div.imp_right fun hle => ?_
  have hhigh := hnearest.high
  have : ((2 ^ 52 : Nat) : Rat) < (r + 1 : Nat) := by
    push_cast
    linarith
  exact Nat.lt_succ_iff.mp (by exact_mod_cast this)

/-- A rounded mantissa is shifted once more only if it became too long. -/
theorem shift_rounded : (shiftToTargetExponent binary64 r t .exact) =
    if r = 2 ^ 53 then (⟨2 ^ 52, false, false⟩, t + 1) else (⟨r, false, false⟩, t) := by
  have hle := hnearest.le_of_scaled hscaled
  have hge := hnearest.ge_of_scaled hscaled
  have hleast := hscaled.least
  unfold shiftToTargetExponent shiftToExponent
  rw [targetExponent_eq]
  dsimp only
  by_cases hmax : r = 2 ^ 53
  · subst hmax
    have hshift : (max (((2 ^ 53 : Nat).log2 : Int) + t - 52) (-1074) - t).toNat = 1 := by
      rw [show (2 ^ 53 : Nat).log2 = 53 from Nat.log2_two_pow]
      omega
    rw [hshift, if_pos rfl]
    rfl
  · have hshift : (max ((r.log2 : Int) + t - 52) (-1074) - t).toNat = 0 := by
      rcases Nat.eq_zero_or_pos r with rfl | hpos
      · rw [show Nat.log2 0 = 0 from rfl]
        omega
      · have hlog : r.log2 < 53 := (Nat.log2_lt hpos.ne').mpr (by omega)
        omega
    rw [hshift, if_neg hmax]
    refine Prod.ext rfl ?_
    change t + ((0 : Nat) : Int) = t
    omega

end

/-- **What a mantissa with its accuracy stands for is what is rounded.** -/
theorem rounds_roundWithAccuracy {m : Nat} {e : Int} {a : Accuracy} {y : Rat} (s : Sign)
    (h : Accurate m y a) (hle : e ≤ binary64.targetExponent (totalExponent m e)) :
    Rounds s (y * 2 ^ e) (roundWithAccuracy binary64 s m e a) := by
  have hscaled := scaled_targetExponent h.bounds.1 h.bounds.2 hle
  unfold roundWithAccuracy
  rw [show shiftToTargetExponent binary64 m e a
    = shiftToExponent m e a (binary64.targetExponent (totalExponent m e)) from rfl]
  generalize binary64.targetExponent (totalExponent m e) = t at hscaled hle
  unfold shiftToExponent
  dsimp only
  obtain ⟨k, rfl⟩ : ∃ k : Nat, t = e + k := ⟨(t - e).toNat, by omega⟩
  rw [show (e + (k : Int) - e).toNat = k by omega]
  obtain ⟨hmantissa, haccuracy⟩ := accuracy_ofMantissaAndAccuracy m a
  have hstart : Accurate (ExtendedMantissa.ofMantissaAndAccuracy m a).mantissa y
      (ExtendedMantissa.ofMantissaAndAccuracy m a).accuracy := by
    rwa [hmantissa, haccuracy]
  have hshift := hstart.shiftRight k
  have hvalue : y / 2 ^ k = y * 2 ^ e / 2 ^ (e + (k : Int)) := by
    rw [zpow_add₀ two_ne_zero, zpow_natCast]
    field_simp
  rw [hvalue] at hshift
  have hnearest := hshift.nearest
  refine ⟨_, _, hscaled, hnearest, ?_⟩
  change Nearest (ExtendedMantissa.roundedMantissa _) _ at hnearest
  change _ = rounded s (ExtendedMantissa.roundedMantissa _) _
  generalize ExtendedMantissa.roundedMantissa _ = r at hnearest ⊢
  rw [shift_rounded hscaled hnearest]
  unfold rounded
  by_cases hmax : r = 2 ^ 53
  · subst hmax
    rfl
  · rw [if_neg hmax]
    by_cases hzero : r = 0
    · rw [dif_pos hzero, dif_pos hzero]
    · rw [dif_neg hzero, dif_neg hzero, if_neg hmax]

/-! ## The numbers that round to a double -/

/-- The end of the lower half of the interval, in quarters of the mantissa's last place: half way to
the neighbour below, which is only half as far away from a power of two. -/
def below (m : Nat) (e : Int) : Nat := if m = 2 ^ 52 ∧ -1074 < e then 1 else 2

theorem below_pos (m : Nat) (e : Int) : (0 : Rat) < below m e := by
  unfold below
  split <;> norm_num

theorem below_le (m : Nat) (e : Int) : (below m e : Rat) ≤ 2 := by
  unfold below
  split <;> norm_num

/-- The numbers that round to `m * 2 ^ e`. The ends of the interval belong to it if the mantissa is
even. -/
def Near (m : Nat) (e : Int) (x : Rat) : Prop :=
  if m % 2 = 0 then (m - below m e / 4) * 2 ^ e ≤ x ∧ x ≤ (m + 1 / 2) * 2 ^ e
  else (m - below m e / 4) * 2 ^ e < x ∧ x < (m + 1 / 2) * 2 ^ e

section

variable {m : Nat} {e : Int} {x : Rat}

theorem Near.bounds (h : Near m e x) :
    (m - below m e / 4) * 2 ^ e ≤ x ∧ x ≤ (m + 1 / 2) * 2 ^ e := by
  unfold Near at h
  split at h
  · exact h
  · exact ⟨h.1.le, h.2.le⟩

theorem Near.even (h : Near m e x)
    (hend : x = (m - below m e / 4) * 2 ^ e ∨ x = (m + 1 / 2) * 2 ^ e) : m % 2 = 0 := by
  unfold Near at h
  split at h
  · assumption
  · rcases hend with hend | hend
    · exact absurd hend h.1.ne'
    · exact absurd hend h.2.ne

/-- **A number in the interval of a double rounds to the double.** -/
theorem Rounds.eq_of_near {s : Sign} {u : UnpackedFloat} (h : Rounds s x u) (hheld : Held m e)
    (hnear : Near m e x) : u = .finite s m e hheld.pos := by
  obtain ⟨t, r, hscaled, hnearest, rfl⟩ := h
  have htwo : (0 : Rat) < 2 ^ e := by positivity
  obtain ⟨hlow, hhigh⟩ := hnear.bounds
  have hlt : (m : Rat) + 1 ≤ 2 ^ 53 := by exact_mod_cast hheld.lt
  have hupper : x < 2 ^ (e + 53) := by
    calc x ≤ (m + 1 / 2) * 2 ^ e := hhigh
      _ < 2 ^ 53 * 2 ^ e := mul_lt_mul_of_pos_right (by linarith) htwo
      _ = 2 ^ (e + 53) := by
        rw [zpow_add₀ two_ne_zero, mul_comm]
        rfl
  by_cases hsame : e = -1074 ∨ (2 : Rat) ^ (e + 52) ≤ x
  · -- the number has the size of the double
    have ht := hscaled.unique ⟨hheld.least, hupper, hsame⟩
    subst ht
    have hm : Nearest m (x / 2 ^ t) := by
      have hbelow := below_le m t
      refine ⟨?_, (div_le_iff₀ htwo).mpr hhigh, fun hend => ?_⟩
      · rw [le_div_iff₀ htwo]
        exact (mul_le_mul_of_nonneg_right (by linarith) htwo.le).trans hlow
      · rcases hend with hend | hend
        · rw [div_eq_iff htwo.ne'] at hend
          have hge : (m - below m t / 4 : Rat) ≤ m - 1 / 2 :=
            le_of_mul_le_mul_right (hlow.trans hend.le) htwo
          refine hnear.even (.inl ?_)
          rw [hend, show (m - below m t / 4 : Rat) = m - 1 / 2 by linarith]
        · exact hnear.even (.inr ((div_eq_iff htwo.ne').mp hend))
    rw [hnearest.unique hm]
    have hpos := hheld.pos
    have hmax : m ≠ 2 ^ 53 := hheld.lt.ne
    unfold rounded
    rw [dif_neg hpos.ne', if_neg hmax]
  · -- the number lies below a power of two, to which it is rounded up
    rw [not_or, not_le] at hsame
    obtain ⟨hne, hsmall⟩ := hsame
    have hleast := hheld.least
    have hm : m = 2 ^ 52 := by
      by_contra hother
      have hfull : 2 ^ 52 + 1 ≤ m := by
        have := hheld.full
        omega
      have hfull : (2 ^ 52 : Rat) + 1 ≤ m := by exact_mod_cast hfull
      have hbelow := below_le m e
      have hge : (2 : Rat) ^ (e + 52) ≤ x := by
        calc (2 : Rat) ^ (e + 52) = 2 ^ 52 * 2 ^ e := by
              rw [zpow_add₀ two_ne_zero, mul_comm]
              rfl
          _ ≤ (m - below m e / 4) * 2 ^ e := mul_le_mul_of_nonneg_right (by linarith) htwo.le
          _ ≤ x := hlow
      linarith
    subst hm
    have hbelow : below (2 ^ 52) e = 1 := if_pos ⟨rfl, by omega⟩
    rw [hbelow] at hlow
    have hhalf : (2 : Rat) ^ e = 2 * 2 ^ (e - 1) := by
      rw [zpow_sub_one₀ two_ne_zero]
      field_simp
    have htwo' : (0 : Rat) < 2 ^ (e - 1) := by positivity
    have hge : (2 ^ 53 - 1 / 2 : Rat) * 2 ^ (e - 1) ≤ x := by
      rw [hhalf] at hlow
      push_cast at hlow
      linarith
    have ht : t = e - 1 := by
      refine hscaled.unique ⟨by omega, ?_, .inr ?_⟩
      · rwa [show e - 1 + 53 = e + 52 by omega]
      · calc (2 : Rat) ^ (e - 1 + 52) = 2 ^ 52 * 2 ^ (e - 1) := by
              rw [zpow_add₀ two_ne_zero, mul_comm]
              rfl
          _ ≤ (2 ^ 53 - 1 / 2 : Rat) * 2 ^ (e - 1) :=
              mul_le_mul_of_nonneg_right (by norm_num) htwo'.le
          _ ≤ x := hge
    subst ht
    have hr : Nearest (2 ^ 53) (x / 2 ^ (e - 1)) := by
      refine ⟨?_, ?_, fun _ => by decide⟩
      · rw [le_div_iff₀ htwo']
        push_cast
        exact hge
      · have := hscaled.div_lt
        push_cast
        linarith
    rw [hnearest.unique hr]
    refine finite_congr rfl ?_
    omega

/-- What is not tiny does not round to zero: it rounds to a double, or lies beyond all of them. -/
theorem Rounds.held_or_infinite {s : Sign} {u : UnpackedFloat} (h : Rounds s x u)
    (hx : (2 : Rat) ^ (-1074 : Int) ≤ x) :
    (∃ m e, ∃ h : Held m e, u = .finite s m e h.pos) ∨
      pack binary64 u = packedInfinity binary64 s := by
  obtain ⟨t, r, hscaled, hnearest, rfl⟩ := h
  have hleast := hscaled.least
  have hpos : r ≠ 0 := by
    rintro rfl
    rcases hnearest.ge_of_scaled hscaled with ht | hge
    · rw [← ht] at hx
      have hone : 1 ≤ x / 2 ^ t := (one_le_div (by positivity)).mpr hx
      have hhigh := hnearest.high
      push_cast at hhigh
      linarith
    · omega
  unfold rounded
  rw [dif_neg hpos]
  by_cases hmax : r = 2 ^ 53
  · rw [if_pos hmax]
    rcases le_or_gt (t + 1) 971 with hle | hgt
    · exact .inl ⟨2 ^ 52, t + 1, ⟨by decide, by decide, by omega, hle, .inl le_rfl⟩, rfl⟩
    · right
      rw [pack_finite, if_pos (by omega)]
  · rw [if_neg hmax]
    have hle := hnearest.le_of_scaled hscaled
    have hfull := hnearest.ge_of_scaled hscaled
    rcases le_or_gt t 971 with hgreatest | hgt
    · exact .inl ⟨r, t, ⟨by omega, by omega, hleast, hgreatest, hfull.symm⟩, rfl⟩
    · right
      rw [pack_finite, if_pos (by omega)]

end

end LeadSheet.Double
