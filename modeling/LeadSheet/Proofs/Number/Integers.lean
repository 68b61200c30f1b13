import LeadSheet.Proofs.Number.Exact

/-!
# Scalars that hold integers as they are

Ticks are integers, whatever type of number they are kept in. What the file format needs of the
type is not much: that integers compare as integers do, and that the difference of two of them is
their difference, as long as it is not too large to be held. The fractions have that, and so have
the doubles (`Proofs.Number.Doubles`).
-/

namespace LeadSheet

/-- Integers are compared and subtracted exactly. -/
class ExactIntegers (α : Type) [Scalar α] : Prop where
  integer?_zero : Scalar.integer? (0 : α) = some 0
  lt_iff {x y : α} {m n : Int} :
    Scalar.integer? x = some m → Scalar.integer? y = some n → (x < y ↔ m < n)
  le_iff {x y : α} {m n : Int} :
    Scalar.integer? x = some m → Scalar.integer? y = some n → (x ≤ y ↔ m ≤ n)
  /-- Up to the bound a double holds every integer. -/
  integer?_sub {x y : α} {m n : Int} :
    Scalar.integer? x = some m → Scalar.integer? y = some n → |m - n| < 2 ^ 53 →
      Scalar.integer? (x - y) = some (m - n)

/-! ## Fractions -/

instance : ExactIntegers Rat where
  integer?_zero := by
    rw [Scalar.integer?_rat, Scalar.numeral_rat]
    rfl
  lt_iff hx hy := by
    rw [Scalar.integer?_rat.mp hx, Scalar.integer?_rat.mp hy]
    exact Int.cast_lt
  le_iff hx hy := by
    rw [Scalar.integer?_rat.mp hx, Scalar.integer?_rat.mp hy]
    exact Int.cast_le
  integer?_sub hx hy _ := by
    rw [Scalar.integer?_rat] at hx hy ⊢
    rw [hx, hy, Int.cast_sub]

/-! ## What is built on them -/

namespace Scalar

variable {α : Type} [Scalar α]

theorem truncate_of_integer? {x : α} {n : Int} (h : integer? x = some n) : truncate x = n := by
  unfold integer? at h
  unfold truncate
  match hfloor : floor? x with
  | none =>
    rw [hfloor] at h
    cases h
  | some m =>
    rw [hfloor, Option.bind_some] at h
    split at h
    · cases h
    · rename_i hle
      cases h
      exact if_neg fun hlt => hle hlt.2

/-- The wait between two ticks that do not fall. -/
theorem integer?_wait [ExactIntegers α] {x y : α} {m n : Int} (hx : integer? x = some m)
    (hy : integer? y = some n) (hmn : m ≤ n) (hnear : n < m + 2 ^ 53) :
    integer? (Scalar.max 0 (y - x)) = some (n - m) := by
  have hzero := ExactIntegers.integer?_zero (α := α)
  have hsub : integer? (y - x) = some (n - m) :=
    ExactIntegers.integer?_sub hy hx (by rw [abs_lt]; omega)
  unfold Scalar.max
  split
  · rename_i hle
    have := (ExactIntegers.le_iff hsub hzero).mp hle
    rw [hzero]
    congr 1
    omega
  · rename_i hle
    rw [ExactIntegers.le_iff hsub hzero] at hle
    rw [if_pos ((ExactIntegers.lt_iff hzero hsub).mpr (by omega)), hsub]

end Scalar

end LeadSheet
