import LeadSheet.Proofs.Number.Waits

/-!
# Sums of doubles

A number is rounded to one double only, and a lesser number not to a greater double, infinity among
them (`RoundsTo.le`). So it is enough to compare numbers where doubles are to be compared, and to
find the number that a sum or a product is rounded from. Sums and products of integers that doubles
hold are rounded as integers are (`ofNat_add`, `ofNat_mul`). An integer that is not held may have
lost its last places already; what is less than half of these is lost again when it is added
(`unpack_add_of_great`).
-/

namespace LeadSheet.Double

open Float.Model (UnpackedFloat)
open Float.Model.Format (binary64)
open Float.Model.UnpackedFloat

/-! ## Rounding and order -/

theorem Rounds.unique {s : Sign} {q : Rat} {u v : UnpackedFloat} (hu : Rounds s q u)
    (hv : Rounds s q v) : u = v := by
  obtain ⟨t, r, hscaled, hnearest, rfl⟩ := hu
  obtain ⟨t', r', hscaled', hnearest', rfl⟩ := hv
  obtain rfl := hscaled.unique hscaled'
  rw [hnearest.unique hnearest']

/-- A number is rounded to one double. -/
theorem RoundsTo.unique {q : Rat} {x y : Float} (hx : RoundsTo q x) (hy : RoundsTo q y) :
    x = y := by
  obtain ⟨u, hu, rfl⟩ := hx
  obtain ⟨v, hv, rfl⟩ := hy
  rw [hu.unique hv]

/-- A mantissa that is a power of two. -/
theorem two_pow_mul_zpow (k : Nat) (t : Int) : ((2 ^ k : Nat) : Rat) * 2 ^ t = 2 ^ (t + k) := by
  rw [zpow_add₀ two_ne_zero, mul_comm, zpow_natCast]
  push_cast
  rfl

/-- Lesser numbers have lesser mantissas, or lesser exponents. -/
theorem rounded_le {p q : Rat} {t t' : Int} {r r' : Nat} (hp : Scaled p t)
    (hr : Nearest r (p / 2 ^ t)) (hq : Scaled q t') (hr' : Nearest r' (q / 2 ^ t'))
    (hle : p ≤ q) : (r : Rat) * 2 ^ t ≤ r' * 2 ^ t' := by
  rcases (hp.le hq hle).eq_or_lt with rfl | hlt
  · have htwo : (0 : Rat) < 2 ^ t := by positivity
    have hmantissa := hr.le hr' (div_le_div_of_nonneg_right hle htwo.le)
    exact mul_le_mul_of_nonneg_right (by exact_mod_cast hmantissa) htwo.le
  · -- the greater number has a full mantissa for its exponent
    have hleast := hp.least
    have hfull : 2 ^ 52 ≤ r' := (hr'.ge_of_scaled hq).resolve_left (by omega)
    have hmost : r ≤ 2 ^ 53 := hr.le_of_scaled hp
    calc (r : Rat) * 2 ^ t ≤ (2 ^ 53 : Nat) * 2 ^ t :=
          mul_le_mul_of_nonneg_right (by exact_mod_cast hmost) (by positivity)
      _ = 2 ^ (t + (53 : Nat)) := two_pow_mul_zpow 53 t
      _ ≤ 2 ^ (t' + (52 : Nat)) := zpow_le_zpow_right₀ one_le_two (by omega)
      _ = (2 ^ 52 : Nat) * 2 ^ t' := (two_pow_mul_zpow 52 t').symm
      _ ≤ r' * 2 ^ t' := mul_le_mul_of_nonneg_right (by exact_mod_cast hfull) (by positivity)

/-- A double that lies above every number. -/
def Endless (x : Float) : Prop := unpack binary64 x.toModel.toBits.toBitVec = .infinity .positive

/-- What is too great for a double is packed as infinity. -/
theorem pack_rounded_of_great {q : Rat} {t : Int} {r : Nat} (hscaled : Scaled q t)
    (hnearest : Nearest r (q / 2 ^ t)) (hgreat : (2 : Rat) ^ (1024 : Int) ≤ r * 2 ^ t) (s : Sign) :
    pack binary64 (rounded s r t) = packedInfinity binary64 s := by
  have hmost := hnearest.le_of_scaled hscaled
  have htwo : (0 : Rat) < 2 ^ t := by positivity
  have hpos : r ≠ 0 := by
    rintro rfl
    rw [Nat.cast_zero, zero_mul] at hgreat
    exact absurd hgreat (not_le.mpr (zpow_pos two_pos _))
  unfold rounded
  rw [dif_neg hpos]
  by_cases hmax : r = 2 ^ 53
  · rw [hmax, two_pow_mul_zpow] at hgreat
    have ht := (zpow_le_zpow_iff_right₀ one_lt_two).mp hgreat
    rw [if_pos hmax, pack_finite, if_pos (by omega)]
  · have hless : (r : Rat) * 2 ^ t < (2 ^ 53 : Nat) * 2 ^ t :=
      mul_lt_mul_of_pos_right (by exact_mod_cast (by omega : r < 2 ^ 53)) htwo
    rw [two_pow_mul_zpow] at hless
    have ht := (zpow_lt_zpow_iff_right₀ one_lt_two).mp (hgreat.trans_lt hless)
    rw [if_neg hmax, pack_finite, if_pos (by omega)]

theorem pack_congr {u v : UnpackedFloat} (h : pack binary64 u = pack binary64 v) :
    Float.Model.pack u = Float.Model.pack v := by
  unfold Float.Model.pack
  rw [Float.Model.mk.injEq, h]

/-- What is rounded has a value, or lies above every number. -/
theorem RoundsTo.value_or_endless {q : Rat} {x : Float} (h : RoundsTo q x) :
    ∃ t r, Scaled q t ∧ Nearest r (q / 2 ^ t) ∧
      ((r : Rat) * 2 ^ t < 2 ^ (1024 : Int) ∧ valueOf? x = some ((r : Rat) * 2 ^ t) ∨
        (2 : Rat) ^ (1024 : Int) ≤ r * 2 ^ t ∧ Endless x) := by
  obtain ⟨u, ⟨t, r, hscaled, hnearest, rfl⟩, rfl⟩ := h
  refine ⟨t, r, hscaled, hnearest, ?_⟩
  rcases lt_or_ge ((r : Rat) * 2 ^ t) (2 ^ (1024 : Int)) with hlt | hgreat
  · exact .inl ⟨hlt, value?_pack_rounded hscaled hnearest hlt .positive⟩
  · right
    refine ⟨hgreat, ?_⟩
    change unpack binary64 (pack binary64 (rounded .positive r t)) = _
    rw [pack_rounded_of_great hscaled hnearest hgreat .positive]
    rfl

theorem Endless.le {x y : Float} (hy : Endless y)
    (hx : (valueOf? x).isSome = true ∨ Endless x) : x ≤ y := by
  rw [le_iff_compare, hy]
  rcases hx with hx | hx
  · unfold valueOf? at hx
    match unpack binary64 x.toModel.toBits.toBitVec, hx with
    | .zero _, _ | .finite .positive _ _ _, _ | .finite .negative _ _ _, _ => rfl
  · rw [hx]
    rfl

/-- **Rounding keeps the order.** -/
theorem RoundsTo.le {p q : Rat} {x y : Float} (hx : RoundsTo p x) (hy : RoundsTo q y)
    (hle : p ≤ q) : x ≤ y := by
  obtain ⟨t, r, hscaled, hnearest, hvalue⟩ := hx.value_or_endless
  obtain ⟨t', r', hscaled', hnearest', hvalue'⟩ := hy.value_or_endless
  have hrounded := rounded_le hscaled hnearest hscaled' hnearest' hle
  rcases hvalue' with ⟨hlt, hyvalue⟩ | ⟨-, hendless⟩
  · rcases hvalue with ⟨-, hxvalue⟩ | ⟨hgreat, -⟩
    · exact (le_iff_valueOf? hxvalue hyvalue).mpr hrounded
    · exact absurd (hgreat.trans hrounded) (not_le.mpr hlt)
  · refine hendless.le (hvalue.imp (fun hvalue => ?_) And.right)
    rw [hvalue.2]
    rfl

/-! ## Integers -/

theorem ofNat_roundsTo {n : Nat} (hpos : 0 < n) : RoundsTo n (Scalar.ofNat n) := by
  have hrounds := ofScientific_rounds hpos true (e := 0) (k := 0) rfl (by omega) (by decide)
  rwa [zpow_zero, mul_one] at hrounds

theorem valueOf?_scalarOfNat {n : Nat} (hlt : n < 2 ^ 53) :
    valueOf? (Scalar.ofNat n) = some (n : Rat) := by
  rcases Nat.eq_zero_or_pos n with rfl | hpos
  · unfold valueOf?
    rw [unpack_zero, Nat.cast_zero]
    rfl
  · obtain ⟨m, e, hheld, hn⟩ := exists_held hpos hlt
    have hrounds := ofNat_roundsTo hpos
    rw [hn] at hrounds ⊢
    exact hrounds.valueOf?_eq hheld

theorem ofNat_le {m n : Nat} (hle : m ≤ n) : (Scalar.ofNat m : Float) ≤ Scalar.ofNat n := by
  rcases Nat.eq_zero_or_pos m with rfl | hpos
  · exact (unsigned_ofDecimal n 0).zero_le
  · exact (ofNat_roundsTo hpos).le (ofNat_roundsTo (hpos.trans_le hle)) (by exact_mod_cast hle)

section

variable {m n : Nat} (hm : m < 2 ^ 53) (hn : n < 2 ^ 53)

include hm hn

/-- Integers that are held are added as integers. -/
theorem ofNat_add : (Scalar.ofNat m : Float) + Scalar.ofNat n = Scalar.ofNat (m + n) := by
  rcases Nat.eq_zero_or_pos (m + n) with hzero | hpos
  · obtain ⟨rfl, rfl⟩ : m = 0 ∧ n = 0 := by omega
    decide +kernel
  · have hsum : (0 : Rat) < m + n := by exact_mod_cast hpos
    have hrounds := add_roundsTo (valueOf?_scalarOfNat hm) (valueOf?_scalarOfNat hn) hsum
    rw [← Nat.cast_add] at hrounds
    exact hrounds.unique (ofNat_roundsTo hpos)

/-- Integers that are held are multiplied as integers. -/
theorem ofNat_mul (hmpos : 0 < m) (hnpos : 0 < n) :
    (Scalar.ofNat m : Float) * Scalar.ofNat n = Scalar.ofNat (m * n) := by
  have hone : (1 : Rat) ≤ m := by exact_mod_cast hmpos
  have hpos : (0 : Rat) < n := by exact_mod_cast hnpos
  have hrounds := mul_roundsTo (valueOf?_scalarOfNat hm) (valueOf?_scalarOfNat hn) hone hpos
  rw [← Nat.cast_mul] at hrounds
  exact hrounds.unique (ofNat_roundsTo (Nat.mul_pos hmpos hnpos))

end

/-- What was rounded is rounded to itself, whether a double can hold it or not. -/
theorem rounds_rounded {q : Rat} {t : Int} {r : Nat} (hscaled : Scaled q t)
    (hnearest : Nearest r (q / 2 ^ t)) (s : Sign) : Rounds s (r * 2 ^ t) (rounded s r t) := by
  have hmost := hnearest.le_of_scaled hscaled
  have hleast := hscaled.least
  have hself : ∀ (k : Nat) (e : Int), Nearest k (k * 2 ^ e / 2 ^ e) := by
    intro k e
    rw [mul_div_cancel_right₀ _ (zpow_ne_zero e two_ne_zero)]
    exact nearest_self k
  by_cases hmax : r = 2 ^ 53
  · -- the mantissa is one place too long, and is written for the next exponent
    subst hmax
    have hnext : ((2 ^ 53 : Nat) : Rat) * 2 ^ t = (2 ^ 52 : Nat) * 2 ^ (t + 1) := by
      rw [two_pow_mul_zpow, two_pow_mul_zpow]
      congr 1
      omega
    rw [hnext]
    refine ⟨t + 1, 2 ^ 52, ⟨by omega, ?_, .inr ?_⟩, hself _ _, rfl⟩
    · rw [two_pow_mul_zpow]
      exact zpow_lt_zpow_right₀ one_lt_two (by omega)
    · rw [two_pow_mul_zpow]
      exact le_rfl
  · refine ⟨t, r, ⟨hleast, ?_, ?_⟩, hself _ _, rfl⟩
    · calc (r : Rat) * 2 ^ t < (2 ^ 53 : Nat) * 2 ^ t :=
            mul_lt_mul_of_pos_right (by exact_mod_cast (by omega : r < 2 ^ 53)) (by positivity)
        _ = 2 ^ (t + 53) := two_pow_mul_zpow 53 t
    · refine (hnearest.ge_of_scaled hscaled).imp_right fun hfull => ?_
      calc (2 : Rat) ^ (t + 52) = (2 ^ 52 : Nat) * 2 ^ t := (two_pow_mul_zpow 52 t).symm
        _ ≤ r * 2 ^ t := mul_le_mul_of_nonneg_right (by exact_mod_cast hfull) (by positivity)

/-- Four times an integer takes an exponent that is greater by two. -/
theorem scaled_mul_four {n : Nat} {t : Int} (hpos : 0 < n) (hscaled : Scaled (n : Rat) t) :
    Scaled (4 * n : Nat) (t + 2) := by
  have hn : (1 : Rat) ≤ n := by exact_mod_cast hpos
  have hleast := hscaled.least
  have hlt := hscaled.lt
  have hfull : (2 : Rat) ^ (t + 52) ≤ n := by
    refine hscaled.full.resolve_left ?_
    rintro rfl
    have hsmall : (2 : Rat) ^ (-1074 + 53 : Int) ≤ 1 :=
      zpow_le_one_of_nonpos₀ one_le_two (by decide)
    linarith
  refine ⟨by omega, ?_, .inr ?_⟩
  · rw [show t + 2 + 53 = t + 53 + 2 by omega, zpow_add₀ two_ne_zero]
    push_cast
    linarith
  · rw [show t + 2 + 52 = t + 52 + 2 by omega, zpow_add₀ two_ne_zero]
    push_cast
    linarith

theorem two_zpow_add_two (t : Int) : (2 : Rat) ^ (t + 2) = 2 ^ t * 4 := by
  rw [zpow_add₀ two_ne_zero]
  norm_num

/-- It keeps the mantissa. -/
theorem nearest_mul_four {n r : Nat} {t : Int} (hnearest : Nearest r ((n : Rat) / 2 ^ t)) :
    Nearest r ((4 * n : Nat) / 2 ^ (t + 2)) := by
  have hquotient : ((4 * n : Nat) : Rat) / 2 ^ (t + 2) = n / 2 ^ t := by
    rw [two_zpow_add_two]
    push_cast
    rw [mul_comm, mul_div_mul_right _ _ four_ne_zero]
  rwa [hquotient]

/-- What lies above every number still does so when it is multiplied. -/
theorem mul_of_endless {x y : Float} (hx : Endless x) {q : Rat} (hy : valueOf? y = some q)
    (hq : 0 < q) : x * y = .ofModel (.pack (.infinity .positive)) := by
  obtain ⟨m, e, hheld, hunpack, -⟩ := exists_finite_of_valueOf? hy hq
  have hinfinite : mul binary64 (unpack binary64 x.toModel.toBits.toBitVec)
      (unpack binary64 y.toModel.toBits.toBitVec) = .infinity .positive := by
    rw [hx, hunpack]
    rfl
  exact congrArg (fun u => Float.ofModel (.pack u)) hinfinite

/-- Four times an integer is rounded as the integer was. -/
theorem ofNat_mul_four {n : Nat} (hpos : 0 < n) :
    (Scalar.ofNat n : Float) * Scalar.ofNat 4 = Scalar.ofNat (4 * n) := by
  obtain ⟨t, r, hscaled, hnearest, hvalue⟩ := (ofNat_roundsTo hpos).value_or_endless
  have hscaled' := scaled_mul_four hpos hscaled
  have hnearest' := nearest_mul_four hnearest
  have hvalueFour := valueOf?_scalarOfNat (n := 4) (by decide)
  have hfour : (Scalar.ofNat (4 * n) : Float) = .ofModel (.pack (rounded .positive r (t + 2))) :=
    (ofNat_roundsTo (by omega)).unique ⟨_, ⟨_, _, hscaled', hnearest', rfl⟩, rfl⟩
  rcases hvalue with ⟨-, hvalue⟩ | ⟨hgreat, hendless⟩
  · -- the product is what the rounded integer gives
    have hone : (1 : Rat) ≤ r * 2 ^ t := by
      have hle := (ofNat_roundsTo one_pos).le (ofNat_roundsTo hpos) (by exact_mod_cast hpos)
      rw [le_iff_valueOf? (valueOf?_scalarOfNat (by decide)) hvalue] at hle
      exact_mod_cast hle
    have hproduct := mul_roundsTo hvalue hvalueFour hone (by norm_num)
    refine hproduct.unique ⟨_, ?_, hfour⟩
    have hrounds := rounds_rounded hscaled' hnearest' .positive
    rw [two_zpow_add_two, ← mul_assoc] at hrounds
    exact_mod_cast hrounds
  · -- infinity stays what it is
    have hless : (r : Rat) * 2 ^ t ≤ r * 2 ^ (t + 2) :=
      mul_le_mul_of_nonneg_left (zpow_le_zpow_right₀ one_le_two (by omega)) (by positivity)
    rw [hfour, mul_of_endless hendless hvalueFour (by norm_num)]
    refine congrArg Float.ofModel (pack_congr ?_)
    rw [pack_rounded_of_great hscaled' hnearest' (hgreat.trans hless) .positive]
    rfl

theorem valueOf?_ofNat_mul_four {n : Nat} (hlt : n < 2 ^ 53) :
    valueOf? (Scalar.ofNat (4 * n)) = some ((4 * n : Nat) : Rat) := by
  rcases Nat.eq_zero_or_pos n with rfl | hpos
  · exact valueOf?_scalarOfNat (by decide)
  · obtain ⟨m, e, hheld, hn⟩ := exists_held_mul hpos hlt (g := 2) (by decide) (by decide)
    have hvalue : ((4 * n : Nat) : Rat) = m * 2 ^ e := by
      rw [← hn]
      push_cast
      ring
    have hrounds := ofNat_roundsTo (n := 4 * n) (by omega)
    rw [hvalue] at hrounds ⊢
    exact hrounds.valueOf?_eq hheld

/-! ## Numbers between zero and a bound -/

/-- A number that is not below zero, but below another one, has a value. -/
theorem exists_value_of_lt {x y : Float} {c : Rat} (hx : Scalar.ofNat 0 ≤ x)
    (hy : valueOf? y = some c) (hlt : x < y) : ∃ q, valueOf? x = some q ∧ 0 ≤ q ∧ q < c := by
  obtain ⟨q, hq⟩ : ∃ q, valueOf? x = some q := by
    rw [zero_le_iff] at hx
    rw [lt_iff_compare] at hlt
    unfold valueOf? at hy ⊢
    match unpack binary64 x.toModel.toBits.toBitVec, hx, hlt with
    | .zero _, _, _ | .finite .positive _ _ _, _, _ => exact ⟨_, rfl⟩
    | .infinity .positive, _, hlt =>
      match unpack binary64 y.toModel.toBits.toBitVec, hy, hlt with
      | .zero _, _, hlt | .finite .positive _ _ _, _, hlt | .finite .negative _ _ _, _, hlt =>
        exact absurd hlt Bool.false_ne_true
  have hzero := valueOf?_scalarOfNat (n := 0) (by decide)
  rw [Nat.cast_zero] at hzero
  exact ⟨q, hq, (le_iff_valueOf? hzero hq).mp hx, (lt_iff_valueOf? hq hy).mp hlt⟩

/-! ## Adding what is lost -/

/-- Adding zero changes nothing, unless it takes a minus sign from a zero. -/
theorem unpack_add_zero {x y : Float} (hx : Unsigned x) (hy : valueOf? y = some 0) :
    unpack binary64 (x + y).toModel.toBits.toBitVec
      = unpack binary64 x.toModel.toBits.toBitVec := by
  change unpack binary64 (pack binary64 (add binary64
    (unpack binary64 x.toModel.toBits.toBitVec) (unpack binary64 y.toModel.toBits.toBitVec))) = _
  have hcanonical := canonical_unpack x.toModel.toBits.toBitVec
  unfold Unsigned at hx
  unfold valueOf? at hy
  have hzero : ∃ s, unpack binary64 y.toModel.toBits.toBitVec = .zero s := by
    match hu : unpack binary64 y.toModel.toBits.toBitVec, hy with
    | .zero s, _ => exact ⟨s, rfl⟩
    | .finite s m e hm, hy =>
      have hpos : (0 : Rat) < m * 2 ^ e := by positivity
      have habs := abs_signed s (m * 2 ^ e)
      rw [Option.some.inj hy, abs_zero, abs_of_pos hpos] at habs
      exact absurd habs hpos.ne
  obtain ⟨s, hs⟩ := hzero
  rw [hs]
  match unpack binary64 x.toModel.toBits.toBitVec, hx, hcanonical with
  | .zero .positive, _, _ => cases s <;> rfl
  | .infinity .positive, _, _ => exact unpack_pack_infinity .positive
  | .finite .positive m e hm, _, hcanonical => exact (hcanonical _ _ _ _ rfl).unpack_pack .positive

/-- What is less than half the last place of a double is lost when it is added. -/
theorem unpack_add_of_lt {x y : Float} {m : Nat} {e : Int} (hheld : Held m e)
    (hx : unpack binary64 x.toModel.toBits.toBitVec = .finite .positive m e hheld.pos) {q : Rat}
    (hy : valueOf? y = some q) (hq : 0 ≤ q) (hlt : q < 2 ^ (e - 1)) :
    unpack binary64 (x + y).toModel.toBits.toBitVec = .finite .positive m e hheld.pos := by
  have hm := hheld.pos
  have htwo : (0 : Rat) < 2 ^ e := by positivity
  have hvalue : valueOf? x = some ((m : Rat) * 2 ^ e) := by
    unfold valueOf?
    rw [hx]
    rfl
  have hproduct : (0 : Rat) < m * 2 ^ e := by positivity
  refine (add_roundsTo hvalue hy (by linarith)).unpack_of_near hheld ?_
  have hlow : (m - below m e / 4 : Rat) * 2 ^ e < m * 2 ^ e + q := by
    have hbelow := mul_pos (below_pos m e) htwo
    linarith
  have hhigh : m * 2 ^ e + q < (m + 1 / 2 : Rat) * 2 ^ e := by
    rw [zpow_sub_one₀ two_ne_zero] at hlt
    linarith
  unfold Near
  split
  · exact ⟨hlow.le, hhigh.le⟩
  · exact ⟨hlow, hhigh⟩

/-- From 2 ^ 55 on an integer stays the same when a number below four is added to it. -/
theorem unpack_add_of_great {n : Nat} (hn : 2 ^ 55 ≤ n) {y : Float} {q : Rat}
    (hy : valueOf? y = some q) (hq : 0 ≤ q) (hlt : q < 4) :
    unpack binary64 (Scalar.ofNat n + y).toModel.toBits.toBitVec
      = unpack binary64 (Scalar.ofNat n : Float).toModel.toBits.toBitVec := by
  have hpos : 0 < n := by omega
  obtain ⟨t, r, hscaled, hnearest, hvalue⟩ := (ofNat_roundsTo hpos).value_or_endless
  rcases hvalue with ⟨-, hvalue⟩ | ⟨-, hendless⟩
  · have hleast : (2 ^ 55 : Rat) ≤ r * 2 ^ t := by
      have hle := (ofNat_roundsTo (n := 2 ^ 55) (by decide)).le (ofNat_roundsTo hpos)
        (by exact_mod_cast hn)
      have hheld : Held (2 ^ 52) 3 := ⟨by decide, by decide, by decide, by decide, .inl le_rfl⟩
      have hbound : ((2 ^ 55 : Nat) : Rat) = (2 ^ 52 : Nat) * 2 ^ (3 : Int) := by norm_num
      have hrounds := ofNat_roundsTo (n := 2 ^ 55) (by decide)
      rw [hbound] at hrounds
      rw [le_iff_valueOf? (hrounds.valueOf?_eq hheld) hvalue, ← hbound] at hle
      exact_mod_cast hle
    obtain ⟨m, e, hheld, hunpack, heq⟩ :=
      exists_finite_of_valueOf? hvalue (lt_of_lt_of_le (by norm_num) hleast)
    have he : (55 : Int) < e + 53 := by
      refine (zpow_lt_zpow_iff_right₀ (one_lt_two (α := Rat))).mp ?_
      calc (2 : Rat) ^ (55 : Int) = 2 ^ 55 := by norm_num
        _ ≤ m * 2 ^ e := hleast.trans_eq heq
        _ < 2 ^ (e + 53) := hheld.mul_lt_two_pow
    rw [hunpack]
    refine unpack_add_of_lt hheld hunpack hy hq (hlt.trans_le ?_)
    calc (4 : Rat) = 2 ^ (2 : Int) := by norm_num
      _ ≤ 2 ^ (e - 1) := zpow_le_zpow_right₀ one_le_two (by omega)
  · change unpack binary64 (pack binary64 (add binary64
      (unpack binary64 (Scalar.ofNat n : Float).toModel.toBits.toBitVec)
      (unpack binary64 y.toModel.toBits.toBitVec))) = _
    unfold valueOf? at hy
    rw [hendless]
    match unpack binary64 y.toModel.toBits.toBitVec, hy with
    | .zero _, _ | .finite _ _ _ _, _ => exact unpack_pack_infinity .positive

/-- **Four times an integer and a number below four** are not rounded to more than four times the
next integer. -/
theorem ofNat_mul_four_add_le {m n : Nat} (hmn : m < n) {x : Float} (hx : Scalar.ofNat 0 ≤ x)
    (hlt : x < Scalar.ofNat 4) :
    (Scalar.ofNat (4 * m) : Float) + x ≤ Scalar.ofNat (4 * n) := by
  obtain ⟨q, hq, hlow, hhigh⟩ := exists_value_of_lt hx (valueOf?_scalarOfNat (by decide)) hlt
  have hhigh : q < 4 := by exact_mod_cast hhigh
  have hlost : unpack binary64 (Scalar.ofNat (4 * m) + x).toModel.toBits.toBitVec
        = unpack binary64 (Scalar.ofNat (4 * m) : Float).toModel.toBits.toBitVec →
      (Scalar.ofNat (4 * m) : Float) + x ≤ Scalar.ofNat (4 * n) := by
    intro hsame
    have hle : (Scalar.ofNat (4 * m) : Float) ≤ Scalar.ofNat (4 * n) := ofNat_le (by omega)
    rw [le_iff_compare] at hle ⊢
    rwa [hsame]
  rcases hlow.eq_or_lt with hzero | hpos
  · exact hlost (unpack_add_zero (unsigned_ofDecimal _ 0) (hzero ▸ hq))
  · rcases lt_or_ge m (2 ^ 53) with hheld | hgreat
    · have hsum : ((4 * m : Nat) : Rat) + q ≤ (4 * n : Nat) := by
        have hnext : ((4 * m + 4 : Nat) : Rat) ≤ (4 * n : Nat) := by exact_mod_cast (by omega)
        push_cast at hnext ⊢
        linarith
      have hfirst : (0 : Rat) ≤ (4 * m : Nat) := Nat.cast_nonneg _
      exact (add_roundsTo (valueOf?_ofNat_mul_four hheld) hq (by linarith)).le
        (ofNat_roundsTo (by omega)) hsum
    · exact hlost (unpack_add_of_great (by omega) hq hlow hhigh)

end LeadSheet.Double
