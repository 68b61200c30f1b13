import LeadSheet.Proofs.Number.Signs
import LeadSheet.Proofs.Number.Whole

/-!
# Waits between doubles

The wait from one double to another is their difference, or zero if that is below zero. From zero it
is exact for integers of any size (`integer?_wait_start`). What a wait that is finite says of the
doubles is less than it seems: from a number one waits no time for what lies infinitely far back
(`isFinite_or_bottom_of_wait`). But from there no wait is finite (`Bottom.isFinite_wait`).
-/

namespace LeadSheet.Double

open Float.Model (UnpackedFloat)
open Float.Model.Format (binary64)
open Float.Model.UnpackedFloat

/-! ## Zero and infinity -/

theorem unpack_pack_infinity (s : Sign) :
    unpack binary64 (pack binary64 (.infinity s)) = .infinity s := by
  cases s <;> rfl

theorem unpack_pack_notANumber : unpack binary64 (pack binary64 .notANumber) = .notANumber := rfl

theorem isFinite_eq (x : Float) : Scalar.isFinite x = (valueOf? x).isSome := by
  rw [Scalar.isFinite, floor?_eq, Option.isSome_map]

/-- A double that lies below every number. -/
def Bottom (x : Float) : Prop := unpack binary64 x.toModel.toBits.toBitVec = .infinity .negative

section

variable {x y : Float}

theorem Bottom.isFinite_eq (h : Bottom x) : Scalar.isFinite x = false := by
  rw [Double.isFinite_eq, valueOf?, h]
  rfl

theorem Bottom.lt (hx : Bottom x) (hy : Scalar.isFinite y = true) : x < y := by
  rw [Double.isFinite_eq, valueOf?] at hy
  rw [lt_iff_compare, hx]
  match unpack binary64 y.toModel.toBits.toBitVec, hy with
  | .zero _, _ | .finite _ _ _ _, _ => rfl

theorem Bottom.not_lt (hy : Bottom y) : ¬x < y := by
  rw [lt_iff_compare, hy]
  match unpack binary64 x.toModel.toBits.toBitVec with
  | .notANumber | .infinity .positive | .infinity .negative | .zero _ | .finite .positive _ _ _
  | .finite .negative _ _ _ => exact Bool.false_ne_true

/-! ## Differences -/

theorem unpack_sub : unpack binary64 (x - y).toModel.toBits.toBitVec
    = unpack binary64 (pack binary64 (sub binary64 (unpack binary64 x.toModel.toBits.toBitVec)
      (unpack binary64 y.toModel.toBits.toBitVec))) := rfl

theorem valueOf?_sub_zero {q : Rat} (hx : valueOf? x = some q) :
    valueOf? (x - Scalar.ofNat 0) = some q := by
  have hcanonical := canonical_unpack x.toModel.toBits.toBitVec
  unfold valueOf? at hx ⊢
  rw [unpack_sub, unpack_zero]
  match unpack binary64 x.toModel.toBits.toBitVec, hcanonical, hx with
  | .zero s, _, rfl => cases s <;> rfl
  | .finite s m e hm, hcanonical, rfl =>
    change value? (unpack binary64 (pack binary64 (.finite s m e hm))) = _
    rw [(hcanonical _ _ _ _ rfl).unpack_pack]
    rfl

/-- A double that is not a number, or lies above every number. -/
def Boundless (x : Float) : Prop :=
  unpack binary64 x.toModel.toBits.toBitVec = .notANumber ∨
    unpack binary64 x.toModel.toBits.toBitVec = .infinity .positive

/-- From a number the difference of two doubles is boundless unless it leads to a number, or to what
lies below every number. -/
theorem boundless_sub (hy : Scalar.isFinite y = true) (hx : ¬Scalar.isFinite x = true)
    (hbottom : ¬Bottom x) : Boundless (x - y) := by
  rw [isFinite_eq, valueOf?] at hx hy
  unfold Bottom at hbottom
  unfold Boundless
  rw [unpack_sub]
  match unpack binary64 x.toModel.toBits.toBitVec, unpack binary64 y.toModel.toBits.toBitVec, hx,
    hbottom, hy with
  | .notANumber, _, _, _, _ => exact .inl unpack_pack_notANumber
  | .infinity .positive, .zero _, _, _, _ | .infinity .positive, .finite .., _, _, _ =>
    exact .inr (unpack_pack_infinity .positive)
  | .infinity .negative, _, _, hbottom, _ => exact absurd rfl hbottom
  | .zero _, _, hx, _, _ | .finite .., _, hx, _, _ => exact absurd rfl hx

theorem Bottom.boundless_sub (hy : Bottom y) : Boundless (x - y) := by
  unfold Boundless
  rw [unpack_sub, hy]
  match unpack binary64 x.toModel.toBits.toBitVec with
  | .notANumber | .infinity .negative => exact .inl unpack_pack_notANumber
  | .infinity .positive | .zero _ | .finite .. => exact .inr (unpack_pack_infinity .positive)

/-! ## Waits -/

/-- **The wait from zero is exact**, however far back one would have to go. -/
theorem integer?_wait_start {n : Int} (h : Scalar.integer? x = some n) :
    Scalar.integer? (Scalar.max (Scalar.ofNat 0) (x - Scalar.ofNat 0)) = some (max 0 n) := by
  have hzero : Scalar.integer? (Scalar.ofNat 0 : Float) = some 0 := ExactIntegers.integer?_zero
  have hsub : Scalar.integer? (x - Scalar.ofNat 0) = some n :=
    integer?_iff_valueOf?.mpr (valueOf?_sub_zero (integer?_iff_valueOf?.mp h))
  unfold Scalar.max
  split
  · next hle =>
    rw [hzero, max_eq_left ((ExactIntegers.le_iff hsub hzero).mp hle)]
  · next hle =>
    have hlt := not_le.mp (mt (ExactIntegers.le_iff hsub hzero).mpr hle)
    rw [if_pos ((ExactIntegers.lt_iff hzero hsub).mpr hlt), hsub, max_eq_right hlt.le]

/-- A boundless difference is no wait. -/
theorem Boundless.isFinite_max (h : Boundless x) :
    Scalar.isFinite (Scalar.max (Scalar.ofNat 0) x) = false := by
  have hle : ¬x ≤ Scalar.ofNat 0 := by
    rw [le_iff_compare, unpack_zero]
    rcases h with h | h <;> rw [h] <;> exact Bool.false_ne_true
  unfold Scalar.max
  rw [if_neg hle, isFinite_eq, valueOf?]
  rcases h with h | h
  · have hlt : ¬(Scalar.ofNat 0 : Float) < x := by
      rw [lt_iff_compare, unpack_zero, h]
      exact Bool.false_ne_true
    rw [if_neg hlt]
    change (value? (unpack binary64 (pack binary64 (add binary64
      (unpack binary64 (Scalar.ofNat 0 : Float).toModel.toBits.toBitVec)
      (unpack binary64 x.toModel.toBits.toBitVec))))).isSome = false
    rw [unpack_zero, h]
    rfl
  · rw [if_pos (zero_lt_of_infinite h), h]
    rfl

/-- A finite wait from a number leads to a number, or back to what lies below every number. -/
theorem isFinite_or_bottom_of_wait (hy : Scalar.isFinite y = true)
    (hwait : Scalar.isFinite (Scalar.max (Scalar.ofNat 0) (x - y)) = true) :
    Scalar.isFinite x = true ∨ Bottom x := by
  by_contra hno
  rw [not_or] at hno
  rw [(boundless_sub hy hno.1 hno.2).isFinite_max] at hwait
  exact Bool.false_ne_true hwait

/-- No wait from below every number is finite. -/
theorem Bottom.isFinite_wait (hy : Bottom y) :
    Scalar.isFinite (Scalar.max (Scalar.ofNat 0) (x - y)) = false :=
  hy.boundless_sub.isFinite_max

end

end LeadSheet.Double
