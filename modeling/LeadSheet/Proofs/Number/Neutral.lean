import LeadSheet.Proofs.Number.Sums

/-!
# Adding to zero

Times are counted from zero by adding and subtracting, and a time in a bar is added to the first
beat of the bar, which may itself be zero. On fractions zero changes nothing. On doubles there is
one exception, since zero has a sign there: zero and negative zero make zero. No sum is negative
zero unless both of its parts are (`Double.notMinusZero_add`), so that the exception does not come
up among times that are counted from zero.
-/

namespace LeadSheet

/-- Zero changes no decimal, and nothing that is worked out from what it does not change by adding
and subtracting. -/
class NeutralZero (α : Type) [Scalar α] : Prop where
  zero_add_ofDecimal (m places : Nat) :
    (0 : α) + Scalar.ofDecimal m places = Scalar.ofDecimal m places
  zero_add_add {x : α} (y : α) : 0 + x = x → 0 + (x + y) = x + y
  zero_add_sub {x : α} (y : α) : 0 + x = x → 0 + (x - y) = x - y

theorem NeutralZero.zero_add_zero {α : Type} [Scalar α] [NeutralZero α] : (0 : α) + 0 = 0 :=
  zero_add_ofDecimal 0 0

/-! ## Fractions -/

instance : NeutralZero Rat where
  zero_add_ofDecimal m places := by rw [Scalar.numeral_rat, Nat.cast_zero, zero_add]
  zero_add_add y _ := by rw [Scalar.numeral_rat, Nat.cast_zero, zero_add]
  zero_add_sub y _ := by rw [Scalar.numeral_rat, Nat.cast_zero, zero_add]

/-! ## Doubles -/

namespace Double

open Float.Model (UnpackedFloat)
open Float.Model.Format (binary64)
open Float.Model.UnpackedFloat

/-- Where some bit of the exponent is not set, the double is finite. -/
theorem isSome_bits?_of_ne {b : BitVec 64} (h : b.toNat / 2 ^ 52 % 2 ^ 11 ≠ 2 ^ 11 - 1) :
    (bits? (unpack binary64 b)).isSome = true := by
  rw [unpack_eq]
  dsimp only
  rw [if_neg h]
  by_cases h0 : b.toNat / 2 ^ 52 % 2 ^ 11 = 0
  · rw [if_pos h0]
    by_cases hf : b.toNat % 2 ^ 52 = 0
    · rw [dif_pos hf]
      rfl
    · rw [dif_neg hf]
      rfl
  · rw [if_neg h0]
    rfl

theorem exponent_of_bits?_eq_none {b : BitVec 64} (h : bits? (unpack binary64 b) = none) :
    b.toNat / 2 ^ 52 % 2 ^ 11 = 2 ^ 11 - 1 := by
  by_contra hne
  have hsome := isSome_bits?_of_ne hne
  rw [h] at hsome
  cases hsome

/-- Of each sign there is one infinity. -/
theorem toNat_of_infinity {b : BitVec 64} {s : Sign} (h : unpack binary64 b = .infinity s) :
    b.toNat = s.toBitVec.toNat * 2 ^ 63 + (2 ^ 11 - 1) * 2 ^ 52 := by
  have hb := b.isLt
  have hmax := exponent_of_bits?_eq_none (congrArg bits? h)
  rw [unpack_eq] at h
  dsimp only at h
  rw [if_pos hmax] at h
  by_cases hf : b.toNat % 2 ^ 52 = 0
  · rw [if_pos hf] at h
    have hsign := UnpackedFloat.infinity.inj h
    by_cases hlow : b.toNat < 2 ^ 63
    · rw [if_pos hlow] at hsign
      subst hsign
      change b.toNat = 0 * 2 ^ 63 + (2 ^ 11 - 1) * 2 ^ 52
      omega
    · rw [if_neg hlow] at hsign
      subst hsign
      change b.toNat = 1 * 2 ^ 63 + (2 ^ 11 - 1) * 2 ^ 52
      omega
  · rw [if_neg hf] at h
    cases h

/-- There is one double that is not a number. -/
theorem toBitVec_of_notANumber {x : Float}
    (h : unpack binary64 x.toModel.toBits.toBitVec = .notANumber) :
    x.toModel.toBits.toBitVec = packedNaN binary64 := by
  have hmax := exponent_of_bits?_eq_none (congrArg bits? h)
  have hexponent : @unpackExponent binary64 x.toModel.toBits.toBitVec = -1#_ := by
    rw [← BitVec.toNat_inj, toNat_unpackExponent, hmax]
    rfl
  unfold unpack at h
  dsimp only at h
  rw [if_pos hexponent] at h
  by_cases hmantissa : @unpackMantissa binary64 x.toModel.toBits.toBitVec = 0#_
  · rw [if_pos hmantissa] at h
    cases h
  · exact x.toModel.valid.eq_packedNaN hexponent hmantissa

theorem float_ext_toBitVec {x y : Float}
    (h : x.toModel.toBits.toBitVec = y.toModel.toBits.toBitVec) : x = y := by
  obtain ⟨⟨⟨bits⟩, valid⟩⟩ := x
  obtain ⟨⟨⟨bits'⟩, valid'⟩⟩ := y
  obtain rfl : bits = bits' := h
  rfl

/-- A double is given by what it is unpacked to. -/
theorem float_ext_unpack {x y : Float}
    (h : unpack binary64 x.toModel.toBits.toBitVec = unpack binary64 y.toModel.toBits.toBitVec) :
    x = y := by
  match hx : unpack binary64 x.toModel.toBits.toBitVec with
  | .zero _ | .finite .. => exact float_eq_of_unpack (by rw [hx]; rfl) h
  | .infinity s =>
    have hbits := (toNat_of_infinity hx).trans (toNat_of_infinity (h.symm.trans hx)).symm
    exact float_ext_toBitVec (BitVec.eq_of_toNat_eq hbits)
  | .notANumber =>
    exact float_ext_toBitVec
      ((toBitVec_of_notANumber hx).trans (toBitVec_of_notANumber (h.symm.trans hx)).symm)

/-! ## Negative zero -/

/-- Anything but negative zero. -/
def NotMinusZero : UnpackedFloat → Prop
  | .zero .negative => False
  | _ => True

theorem NotMinusZero.of_eq {u w : UnpackedFloat} (h : u = w) (hw : NotMinusZero w) :
    NotMinusZero u := h ▸ hw

theorem Plus.notMinusZero : ∀ {u : UnpackedFloat}, Plus u → NotMinusZero u
  | .zero .positive, _ | .infinity .positive, _ | .finite .positive _ _ _, _ => trivial

theorem unpack_add (x y : Float) : unpack binary64 (x + y).toModel.toBits.toBitVec
    = unpack binary64 (pack binary64 (add binary64 (unpack binary64 x.toModel.toBits.toBitVec)
      (unpack binary64 y.toModel.toBits.toBitVec))) := rfl

/-- What was unpacked is packed as it was. -/
theorem Canonical.unpack_pack : ∀ {u : UnpackedFloat}, Canonical u →
    unpack binary64 (pack binary64 u) = u
  | .notANumber, _ => unpack_pack_notANumber
  | .infinity s, _ => unpack_pack_infinity s
  | .zero s, _ => unpack_pack_zero s
  | .finite s _ _ _, hu => (hu _ _ _ _ rfl).unpack_pack s

theorem zero_add_eq : ∀ {u : UnpackedFloat}, NotMinusZero u →
    add binary64 (.zero .positive) u = u
  | .notANumber, _ | .infinity _, _ | .zero .positive, _ | .finite .., _ => rfl

/-- Zero changes no double but negative zero. -/
theorem zero_add_iff {x : Float} :
    Scalar.ofNat 0 + x = x ↔ NotMinusZero (unpack binary64 x.toModel.toBits.toBitVec) := by
  have hadd := unpack_add (Scalar.ofNat 0) x
  rw [unpack_zero] at hadd
  constructor
  · intro hsame
    match hx : unpack binary64 x.toModel.toBits.toBitVec with
    | .zero .negative =>
      rw [hsame, hx] at hadd
      have hsign : UnpackedFloat.zero .negative = .zero .positive := hadd
      cases hsign
    | .notANumber | .infinity _ | .zero .positive | .finite .. => trivial
  · intro h
    rw [zero_add_eq h, (canonical_unpack _).unpack_pack] at hadd
    exact float_ext_unpack hadd

/-- An integer at an exponent that doubles have is not rounded to zero, so a negative one stays
below zero. -/
theorem notMinusZero_normalize {e : Int} (hleast : -1074 ≤ e) (d : Int) :
    NotMinusZero (unpack binary64 (pack binary64 (normalize binary64 d e .positive))) := by
  rcases lt_or_ge d 0 with hneg | hnonneg
  · obtain ⟨m, hm, rfl⟩ : ∃ m : Nat, 0 < m ∧ d = -m := ⟨d.natAbs, by omega, by omega⟩
    have htiny : (2 : Rat) ^ (-1074 : Int) ≤ m * 2 ^ e := by
      have hone : (1 : Rat) ≤ m := by exact_mod_cast hm
      calc (2 : Rat) ^ (-1074 : Int) ≤ 2 ^ e := zpow_le_zpow_right₀ one_le_two hleast
        _ ≤ m * 2 ^ e := le_mul_of_one_le_left (by positivity) hone
    have hround := (rounds_round .negative hm e).held_or_infinite htiny
    rw [UnpackedFloat.normalize, compare_lt_iff_lt.mpr hneg]
    dsimp only
    rw [neg_neg, Int.toNat_natCast]
    rcases hround with ⟨m', e', hheld, hfinite⟩ | hinfinite
    · rw [hfinite]
      exact .of_eq (hheld.unpack_pack .negative) trivial
    · rw [hinfinite]
      exact .of_eq (unpack_pack_infinity .negative) trivial
  · exact (plus_normalize hnonneg e).unpack_pack.notMinusZero

/-- A sum is negative zero only if what it begins with is. -/
theorem notMinusZero_add {u v : UnpackedFloat} (hu : Canonical u) (hv : Canonical v)
    (h : NotMinusZero u) : NotMinusZero (unpack binary64 (pack binary64 (add binary64 u v))) := by
  match u, v with
  | .finite _ _ e _, .finite _ _ e' _ =>
    exact notMinusZero_normalize (le_min (hu _ _ _ _ rfl).least (hv _ _ _ _ rfl).least) _
  -- in the other cases one of the parts is the sum, or there is none
  | .zero .negative, _ => exact absurd h id
  | .notANumber, _ | .infinity _, .notANumber | .zero .positive, .notANumber
  | .finite .., .notANumber => exact .of_eq unpack_pack_notANumber trivial
  | .zero .positive, .zero .positive => exact .of_eq (unpack_pack_zero .positive) trivial
  | .zero .positive, .zero .negative => exact .of_eq (unpack_pack_zero .positive) trivial
  | .zero .positive, .finite .. => exact .of_eq hv.unpack_pack trivial
  | .finite .., .zero _ => exact .of_eq hu.unpack_pack trivial
  | .infinity .positive, .infinity .positive =>
    exact .of_eq (unpack_pack_infinity .positive) trivial
  | .infinity .negative, .infinity .negative =>
    exact .of_eq (unpack_pack_infinity .negative) trivial
  | .infinity .positive, .infinity .negative | .infinity .negative, .infinity .positive =>
    exact .of_eq unpack_pack_notANumber trivial
  | .infinity s, .zero _ | .infinity s, .finite .. | .zero .positive, .infinity s
  | .finite .., .infinity s => exact .of_eq (unpack_pack_infinity s) trivial

end Double

open Double

instance : NeutralZero Float where
  zero_add_ofDecimal m places :=
    zero_add_iff.mpr (Plus.notMinusZero (unsigned_ofDecimal m places))
  zero_add_add y hx := zero_add_iff.mpr
    (notMinusZero_add (canonical_unpack _) (canonical_unpack _) (zero_add_iff.mp hx))
  zero_add_sub {x} y hx := by
    refine zero_add_iff.mpr ?_
    rw [unpack_sub, sub_eq_add]
    exact notMinusZero_add (canonical_unpack _) (canonical_unpack _).neg (zero_add_iff.mp hx)

end LeadSheet
