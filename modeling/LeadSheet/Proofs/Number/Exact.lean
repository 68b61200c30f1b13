import LeadSheet.Number.Exact
import Mathlib.Data.Rat.Floor
import Mathlib.Tactic.Linarith

/-!
# What the scalar operations are on fractions

The operations of `Scalar`, instantiated at the fractions, are the ones of the fractions. Each lemma
here takes one of them out of the interface, so that proofs about exact arithmetic can go on in the
language of ordered fields.
-/

namespace LeadSheet.Scalar

/-- Numerals of the interface are the numerals of the fractions. -/
@[simp] theorem ofNat_rat (n : Nat) : (ofNat n : Rat) = n := by
  show (n : Rat) / 10 ^ 0 = n
  rw [pow_zero, div_one]

@[simp] theorem numeral_rat (n : Nat) : @OfNat.ofNat Rat n (instOfNat n) = (n : Rat) := ofNat_rat n

@[simp] theorem ofDecimal_rat (m places : Nat) : (ofDecimal m places : Rat) = m / 10 ^ places := rfl

@[simp] theorem ofInt_rat (n : Int) : (ofInt n : Rat) = n := rfl

@[simp] theorem floor?_rat (x : Rat) : floor? x = some ⌊x⌋ := rfl

theorem integer?_rat {x : Rat} {n : Int} : integer? x = some n ↔ x = n := by
  unfold integer?
  rw [floor?_rat, Option.bind_some, ofInt_rat]
  constructor
  · intro h
    split at h
    · cases h
    · rename_i hle
      cases h
      exact le_antisymm (not_lt.mp hle) (Int.floor_le x)
  · rintro rfl
    rw [Int.floor_intCast, if_neg (lt_irrefl _)]

theorem max_rat (x y : Rat) : Scalar.max x y = Max.max x y := by
  unfold Scalar.max
  split
  · rename_i h
    exact (max_eq_left h).symm
  · rename_i h
    have hlt : x < y := not_le.mp h
    rw [if_pos hlt]
    exact (max_eq_right hlt.le).symm

theorem min_rat (x y : Rat) : Scalar.min x y = Min.min x y := by
  unfold Scalar.min
  split
  · rename_i h
    exact (min_eq_left h).symm
  · rename_i h
    have hlt : y < x := not_le.mp h
    rw [if_pos hlt]
    exact (min_eq_right hlt.le).symm

/-- Rounding takes the floor of what is half more. -/
theorem round_rat (x : Rat) : Scalar.round x = ⌊x + 1 / 2⌋ := by
  unfold Scalar.round
  rw [floor?_rat]
  simp only [ofInt_rat, numeral_rat]
  have hle := Int.floor_le x
  have hlt := Int.lt_floor_add_one x
  split
  · rename_i h
    congr 1
    symm
    rw [Int.floor_eq_iff]
    push_cast at h ⊢
    constructor <;> linarith
  · rename_i h
    congr 1
    symm
    rw [Int.floor_eq_iff]
    push_cast at h ⊢
    constructor <;> linarith

end LeadSheet.Scalar
