import LeadSheet.Number.Binary64
import LeadSheet.Proofs.Number.Integers
import LeadSheet.Proofs.Number.Rounding

/-!
# Doubles hold integers as they are

The value of a double that is finite is a fraction, by which it is compared and subtracted
(`Proofs.Number.Rounding`) and from which its greatest integer is taken (`floor?_eq`). A double is
an integer if its greatest integer, made a double again, is not below it. For that the greatest
integer has to be held as it is, and it is: where there are fractions at all, doubles hold every
integer (`floor_eq_or_abs_lt`).
-/

namespace LeadSheet.Double

open Float.Model (UnpackedFloat)
open Float.Model.Format (binary64)
open Float.Model.UnpackedFloat

/-! ## Values of doubles -/

/-- The value of a double, if it is finite. -/
def valueOf? (x : Float) : Option Rat :=
  value? (unpack binary64 x.toModel.toBits.toBitVec)

/-- Two finite doubles with the same parts are the same. -/
theorem float_eq_of_unpack {x y : Float}
    (hfinite : (bits? (unpack binary64 x.toModel.toBits.toBitVec)).isSome)
    (h : unpack binary64 x.toModel.toBits.toBitVec = unpack binary64 y.toModel.toBits.toBitVec) :
    x = y := by
  obtain ⟨n, hx⟩ := Option.isSome_iff_exists.mp hfinite
  have hy := toNat_of_bits? (h ▸ hx)
  obtain ⟨⟨⟨bits⟩, valid⟩⟩ := x
  obtain ⟨⟨⟨bits'⟩, valid'⟩⟩ := y
  obtain rfl : bits = bits' := BitVec.eq_of_toNat_eq ((toNat_of_bits? hx).trans hy.symm)
  rfl

theorem valueOf?_sub {x y : Float} {p q : Rat} {n : Int} (hx : valueOf? x = some p)
    (hy : valueOf? y = some q) (hn : p - q = n) (hlt : |n| < 2 ^ 53) :
    valueOf? (x - y) = some (n : Rat) :=
  value?_sub (canonical_unpack _) (canonical_unpack _) hx hy hn hlt

/-- One times a double is the double. -/
theorem value?_mul_one : ∀ {u : UnpackedFloat} {p : Rat}, Canonical u → value? u = some p →
    value? (unpack binary64 (pack binary64
      (mul binary64 u (.finite .positive (2 ^ 52) (-52) (by decide))))) = some p
  | .zero s, _, _, rfl => by cases s <;> rfl
  | .finite s m e hm, _, hu, rfl => by
    have hheld := hu _ _ _ _ rfl
    have hsign : s * .positive = s := by cases s <;> rfl
    have hround := hheld.round_eq s 52
    unfold mul
    dsimp only
    rw [hsign]
    change value? (unpack binary64 (pack binary64
      (roundWithAccuracy binary64 s (m * 2 ^ 52) (e - (52 : Nat)) .exact))) = _
    rw [hround, hheld.unpack_pack]
    rfl

theorem valueOf?_mul_one {x one : Float} {p : Rat} (hx : valueOf? x = some p)
    (hone : unpack binary64 one.toModel.toBits.toBitVec
      = .finite .positive (2 ^ 52) (-52) (by decide)) : valueOf? (x * one) = some p := by
  have h := value?_mul_one (canonical_unpack _) hx
  rwa [← hone] at h

theorem valueOf?_toFloat {n : Nat} (hlt : n < 2 ^ 53) :
    valueOf? n.toUInt64.toFloat = some (n : Rat) := by
  have hnat : n.toUInt64.toNat = n := by
    rw [Nat.toUInt64, UInt64.toNat_ofNat']
    omega
  have hvalue : ((n.toUInt64.toNat : Int) : Rat) * 2 ^ (0 : Int) = (n : Int) := by
    rw [hnat, zpow_zero, mul_one]
  exact (value?_normalize .positive hvalue (by rw [abs_lt]; omega)).trans (by rw [Int.cast_natCast])

theorem unpack_one :
    unpack binary64 (Float.ofBits 0x3FF0000000000000).toModel.toBits.toBitVec
      = .finite .positive (2 ^ 52) (-52) (by decide) := by
  have hbits : (Float.ofBits 0x3FF0000000000000).toModel.toBits.toBitVec
      = 0x3FF0000000000000#64 := by
    decide +kernel
  rw [hbits]
  rfl

theorem valueOf?_ofNat {n : Nat} (hlt : n < 2 ^ 53) :
    valueOf? (Float.ofNat n) = some (n : Rat) := by
  change valueOf? (Float.ofScientific n false 0) = some (n : Rat)
  unfold Float.ofScientific
  rw [dif_pos ⟨hlt, by decide⟩, if_neg (by decide)]
  exact valueOf?_mul_one (valueOf?_toFloat hlt) unpack_one

theorem value?_neg : ∀ {u : UnpackedFloat} {p : Rat}, Canonical u → value? u = some p →
    value? (unpack binary64 (pack binary64 u.neg)) = some (-p)
  | .zero s, _, _, rfl => by cases s <;> rfl
  | .finite s m e hm, _, hu, rfl => by
    rw [← signed_neg]
    unfold UnpackedFloat.neg
    rw [(hu _ _ _ _ rfl).unpack_pack]
    rfl

theorem valueOf?_ofInt {n : Int} (hlt : |n| < 2 ^ 53) :
    valueOf? (Float.ofInt n) = some (n : Rat) := by
  rw [abs_lt] at hlt
  cases n with
  | ofNat k =>
    rw [Int.ofNat_eq_natCast] at hlt
    exact valueOf?_ofNat (by omega)
  | negSucc k =>
    rw [Int.negSucc_eq] at hlt
    have hk : k + 1 < 2 ^ 53 := by omega
    have hneg : valueOf? (Float.neg (Float.ofNat (k + 1))) = some (-((k + 1 : Nat) : Rat)) :=
      value?_neg (canonical_unpack _) (valueOf?_ofNat hk)
    rw [Int.cast_negSucc]
    exact hneg

section

variable {x y : Float}

/-- Doubles are compared by what they are unpacked to. -/
theorem lt_iff_compare : x < y ↔ (UnpackedFloat.compare (unpack binary64 x.toModel.toBits.toBitVec)
    (unpack binary64 y.toModel.toBits.toBitVec) == some .lt) = true := by
  change decide (x.toModel < y.toModel) = true ↔ _
  rw [decide_eq_true_iff]
  rfl

theorem le_iff_compare : x ≤ y ↔ (UnpackedFloat.compare (unpack binary64 x.toModel.toBits.toBitVec)
    (unpack binary64 y.toModel.toBits.toBitVec)).any (·.isLE) = true := by
  change decide (x.toModel ≤ y.toModel) = true ↔ _
  rw [decide_eq_true_iff]
  rfl

variable {p q : Rat} (hx : valueOf? x = some p) (hy : valueOf? y = some q)

include hx hy

theorem lt_iff_valueOf? : x < y ↔ p < q := by
  rw [lt_iff_compare, compare_eq (canonical_unpack _) (canonical_unpack _) hx hy, beq_iff_eq,
    Option.some.injEq, compare_lt_iff_lt]

theorem le_iff_valueOf? : x ≤ y ↔ p ≤ q := by
  rw [le_iff_compare, compare_eq (canonical_unpack _) (canonical_unpack _) hx hy]
  change (compare p q).isLE = true ↔ _
  rw [← Ordering.ne_gt_iff_isLE]
  exact compare_le_iff_le

end

/-! ## Taking doubles apart -/

theorem decode_fields (x : Float) : Binary64.decode x =
    let bits : Nat := x.toModel.toBits.toBitVec.toNat
    let negative := decide (2 ^ 63 ≤ bits)
    let exponent : Nat := bits / 2 ^ 52 % 2 ^ 11
    let fraction : Nat := bits % 2 ^ 52
    if exponent = 2 ^ 11 - 1 then if fraction = 0 then .infinite negative else .nan
    else if exponent = 0 then .finite negative fraction (-1074)
    else .finite negative (2 ^ 52 + fraction) ((exponent : Int) - 1075) :=
  rfl

/-- A double is taken apart as it is unpacked. -/
theorem decode_eq (x : Float) : Binary64.decode x =
    match unpack binary64 x.toModel.toBits.toBitVec with
    | .notANumber => .nan
    | .infinity s => .infinite (s == .negative)
    | .zero s => .finite (s == .negative) 0 (-1074)
    | .finite s m e _ => .finite (s == .negative) m e := by
  rw [decode_fields]
  generalize x.toModel.toBits.toBitVec = b
  rw [unpack_eq]
  dsimp only
  have hsign : decide (2 ^ 63 ≤ b.toNat)
      = ((if b.toNat < 2 ^ 63 then Sign.positive else .negative) == .negative) := by
    by_cases h : b.toNat < 2 ^ 63
    · rw [if_pos h, decide_eq_false (Nat.not_le.mpr h)]
      rfl
    · rw [if_neg h, decide_eq_true (Nat.not_lt.mp h)]
      rfl
  rw [hsign]
  by_cases hmax : b.toNat / 2 ^ 52 % 2 ^ 11 = 2 ^ 11 - 1
  · rw [if_pos hmax, if_pos hmax]
    by_cases hzero : b.toNat % 2 ^ 52 = 0
    · rw [if_pos hzero, if_pos hzero]
    · rw [if_neg hzero, if_neg hzero]
  · rw [if_neg hmax, if_neg hmax]
    by_cases hleast : b.toNat / 2 ^ 52 % 2 ^ 11 = 0
    · rw [if_pos hleast, if_pos hleast]
      -- zero has no mantissa of its own
      by_cases hzero : b.toNat % 2 ^ 52 = 0
      · rw [dif_pos hzero, hzero]
      · rw [dif_neg hzero]
    · rw [if_neg hleast, if_neg hleast]

theorem floor_mul_zpow (n e : Int) :
    (if 0 ≤ e then n * (Nat.pow 2 e.toNat : Nat) else n / (Nat.pow 2 (-e).toNat : Nat))
      = ⌊(n : Rat) * 2 ^ e⌋ := by
  split
  · next hle =>
    obtain ⟨k, rfl⟩ := Int.eq_ofNat_of_zero_le hle
    have hcast : (n : Rat) * 2 ^ (k : Int) = ((n * (Nat.pow 2 k : Nat) : Int) : Rat) := by
      rw [zpow_natCast, Nat.pow_eq]
      push_cast
      rfl
    rw [hcast, Int.floor_intCast, Int.toNat_natCast]
  · next hlt =>
    obtain ⟨k, rfl⟩ : ∃ k : Nat, e = -k := ⟨(-e).toNat, by omega⟩
    have hcast : (n : Rat) * 2 ^ (-(k : Int)) = n / ((Nat.pow 2 k : Nat) : Rat) := by
      rw [zpow_neg, zpow_natCast, Nat.pow_eq]
      push_cast
      rfl
    rw [hcast, Rat.floor_intCast_div_natCast, neg_neg, Int.toNat_natCast]

theorem floor?_finite (s : Sign) (m : Nat) (e : Int) :
    (Binary64.finite (s == .negative) m e).floor? = some ⌊signed s (m * 2 ^ e)⌋ := by
  cases s with
  | positive => exact congrArg some (floor_mul_zpow m e)
  | negative =>
    refine congrArg some ((floor_mul_zpow (-m) e).trans ?_)
    rw [Int.cast_neg, neg_mul]
    rfl

theorem floor?_eq (x : Float) : Scalar.floor? x = (valueOf? x).map Int.floor := by
  change (Binary64.decode x).floor? = _
  rw [decode_eq]
  unfold valueOf?
  match unpack binary64 x.toModel.toBits.toBitVec with
  | .notANumber => rfl
  | .infinity s => rfl
  | .zero s =>
    refine (floor?_finite s 0 (-1074)).trans (congrArg (fun q => some ⌊q⌋) ?_)
    cases s <;> simp [signed]
  | .finite s m e hm => exact floor?_finite s m e

/-! ## Integers -/

theorem abs_signed (s : Sign) (x : Rat) : |signed s x| = |x| := by
  cases s with
  | positive => rfl
  | negative => exact abs_neg x

/-- The values below an exponent of zero lie well within what a double can hold. -/
theorem Held.abs_floor_lt {m : Nat} {e : Int} (h : Held m e) (s : Sign) (hneg : e < 0) :
    |⌊signed s (m * 2 ^ e)⌋| < 2 ^ 53 := by
  have hm : (m : Rat) ≤ 2 ^ 53 := by exact_mod_cast h.lt.le
  have htwo : (2 : Rat) ^ e ≤ 2 ^ (-1 : Int) := zpow_le_zpow_right₀ one_le_two (by omega)
  have habs : |signed s (m * 2 ^ e)| ≤ 2 ^ 52 := by
    rw [abs_signed, abs_of_nonneg (by positivity)]
    calc (m : Rat) * 2 ^ e ≤ 2 ^ 53 * 2 ^ (-1 : Int) := by gcongr
      _ = 2 ^ 52 := by norm_num
  -- rounding down adds one at most
  have hfloor : |(⌊signed s (m * 2 ^ e)⌋ : Rat)| < 2 ^ 53 := by
    have hle := Int.floor_le (signed s (m * 2 ^ e))
    have hlt := Int.lt_floor_add_one (signed s (m * 2 ^ e))
    rw [abs_le] at habs
    rw [abs_lt]
    constructor <;> linarith
  exact_mod_cast hfloor

theorem floor_signed {e : Int} (s : Sign) (m : Nat) (hle : 0 ≤ e) :
    (⌊signed s (m * 2 ^ e)⌋ : Rat) = signed s (m * 2 ^ e) := by
  obtain ⟨k, rfl⟩ := Int.eq_ofNat_of_zero_le hle
  have hcast : signed s (m * 2 ^ (k : Int)) = ((s.apply (m * 2 ^ k) : Int) : Rat) := by
    rw [cast_apply, zpow_natCast]
    push_cast
    rfl
  rw [hcast, Int.floor_intCast]

/-- A double is an integer, or its greatest integer is well within what a double can hold. -/
theorem floor_eq_or_abs_lt {x : Float} {q : Rat} (hx : valueOf? x = some q) :
    (⌊q⌋ : Rat) = q ∨ |⌊q⌋| < 2 ^ 53 := by
  unfold valueOf? at hx
  match hu : unpack binary64 x.toModel.toBits.toBitVec, hx with
  | .zero s, rfl => exact .inl (by rw [Int.floor_zero, Int.cast_zero])
  | .finite s m e hm, rfl =>
    rcases le_or_gt 0 e with hle | hneg
    · exact .inl (floor_signed s m hle)
    · exact .inr ((held_of_unpack hu).abs_floor_lt s hneg)

theorem valueOf?_of_integer? {x : Float} {n : Int} (h : Scalar.integer? x = some n) :
    valueOf? x = some (n : Rat) := by
  unfold Scalar.integer? at h
  rw [floor?_eq] at h
  cases hx : valueOf? x with
  | none =>
    rw [hx] at h
    cases h
  | some q =>
    rw [hx, Option.map_some, Option.bind_some] at h
    split at h
    · cases h
    · next hle =>
      cases h
      -- the double is its greatest integer, or that one is held as it is and can be compared
      rcases floor_eq_or_abs_lt hx with heq | hlt
      · rw [heq]
      · have hcompare := lt_iff_valueOf? (valueOf?_ofInt hlt) hx
        exact congrArg some
          (le_antisymm (not_lt.mp fun h => hle (hcompare.mpr h)) (Int.floor_le q))

theorem integer?_of_valueOf? {x : Float} {n : Int} (hx : valueOf? x = some (n : Rat))
    (hlt : |n| < 2 ^ 53) : Scalar.integer? x = some n := by
  have hle : ¬Float.ofInt n < x := by
    rw [lt_iff_valueOf? (valueOf?_ofInt hlt) hx]
    exact lt_irrefl _
  unfold Scalar.integer?
  rw [floor?_eq, hx, Option.map_some, Option.bind_some, Int.floor_intCast]
  exact if_neg hle

end Double

open Double

instance : ExactIntegers Float where
  integer?_zero := by decide +kernel
  lt_iff hx hy := by
    rw [lt_iff_valueOf? (valueOf?_of_integer? hx) (valueOf?_of_integer? hy), Int.cast_lt]
  le_iff hx hy := by
    rw [le_iff_valueOf? (valueOf?_of_integer? hx) (valueOf?_of_integer? hy), Int.cast_le]
  integer?_sub hx hy hlt :=
    integer?_of_valueOf? (valueOf?_sub (valueOf?_of_integer? hx) (valueOf?_of_integer? hy)
      (Int.cast_sub _ _).symm hlt) hlt

end LeadSheet
