import LeadSheet.Proofs.Number.Neutral
import LeadSheet.Proofs.Number.Order
import LeadSheet.Proofs.Number.Whole

/-!
# Sums of integers, in order

Pitches are made from integers, by adding and by counting twelve semitones to an octave. Whatever
the integers are, what comes out is an integer, or it is beyond all numbers and stays there; and of
greater numbers the sum is not a lesser one. `IntegerSums` is what of this the pitches need.

On fractions all of it holds without rounding. On doubles a sum may be rounded, but to the nearest
double, which is not a lesser one for a greater sum (`Rounded.mono`) and is an integer if the sum is
(`Rounded.integer`), that very one if it is not too great (`Rounded.eq_of_small`). A sum that is
beyond all doubles is infinite (`bounded`), and stays so (`Carried`).
-/

namespace LeadSheet

namespace Scalar

variable {α : Type} [Scalar α]

/-- An integer, or a number beyond all integers. -/
structure Whole (x : α) : Prop where
  isNumber : IsNumber x
  isSome_integer? : isFinite x = true → (integer? x).isSome = true

theorem isFinite_of_integer? {x : α} (h : (integer? x).isSome = true) : isFinite x = true := by
  unfold integer? at h
  unfold isFinite
  cases hfloor : floor? x with
  | none =>
    rw [hfloor] at h
    cases h
  | some n => rfl

end Scalar

/-- Integers stay integers, or grow beyond all numbers, and their sums are in order. Numbers that
compare equal are the same if zero changes neither. -/
class IntegerSums (α : Type) [Scalar α] : Prop
    extends OrderedNumbers α, ExactIntegers α, NeutralZero α where
  add_comm (x y : α) : x + y = y + x
  add_le_add {x y z : α} : Scalar.IsNumber x →
    Scalar.isFinite x = true ∨ Scalar.isFinite y = true ∧ Scalar.isFinite z = true →
      y ≤ z → x + y ≤ x + z
  mul_twelve_le {x y : α} : x ≤ y → x * (12 : α) ≤ y * (12 : α)
  whole_add {x y : α} : Scalar.Whole x → (Scalar.integer? y).isSome = true → Scalar.Whole (x + y)
  whole_mul_twelve {x : α} : Scalar.Whole x → Scalar.Whole (x * (12 : α))
  zero_add_mul_twelve {x : α} : 0 + x = x → 0 + x * (12 : α) = x * (12 : α)
  /-- Up to the bound a double holds every integer. -/
  integer?_ofNat {n : Nat} : n < 2 ^ 53 → Scalar.integer? (Scalar.ofNat n : α) = some (n : Int)
  integer?_add {x y : α} {m n : Int} : Scalar.integer? x = some m → Scalar.integer? y = some n →
    |m + n| < 2 ^ 53 → Scalar.integer? (x + y) = some (m + n)
  integer?_mul_twelve {x : α} {n : Int} : Scalar.integer? x = some n → |n * 12| < 2 ^ 53 →
    Scalar.integer? (x * (12 : α)) = some (n * 12)
  isFinite_of_between {x y z : α} : Scalar.isFinite x = true → Scalar.isFinite z = true → x ≤ y →
    y ≤ z → Scalar.isFinite y = true
  eq_of_le_of_le {x y : α} : 0 + x = x → 0 + y = y → x ≤ y → y ≤ x → x = y

/-! ## Fractions -/

theorem Scalar.whole_rat {x : Rat} : Scalar.Whole x ↔ ∃ n : Int, x = n := by
  constructor
  · intro h
    obtain ⟨n, hn⟩ := Option.isSome_iff_exists.mp (h.isSome_integer? rfl)
    exact ⟨n, Scalar.integer?_rat.mp hn⟩
  · rintro ⟨n, hn⟩
    exact ⟨le_rfl, fun _ => Option.isSome_of_mem (Scalar.integer?_rat.mpr hn)⟩

instance : IntegerSums Rat where
  add_comm := add_comm
  add_le_add _ _ h := (add_le_add_iff_left _).mpr h
  mul_twelve_le h := by
    rw [Scalar.numeral_rat]
    exact mul_le_mul_of_nonneg_right h (by norm_num)
  whole_add hx hy := by
    obtain ⟨m, hm⟩ := Scalar.whole_rat.mp hx
    obtain ⟨n, hn⟩ := Option.isSome_iff_exists.mp hy
    rw [Scalar.integer?_rat] at hn
    exact Scalar.whole_rat.mpr ⟨m + n, by rw [hm, hn, Int.cast_add]⟩
  whole_mul_twelve hx := by
    obtain ⟨m, hm⟩ := Scalar.whole_rat.mp hx
    refine Scalar.whole_rat.mpr ⟨m * 12, ?_⟩
    rw [hm, Scalar.numeral_rat]
    push_cast
    rfl
  zero_add_mul_twelve _ := by rw [Scalar.numeral_rat, Nat.cast_zero, zero_add]
  integer?_ofNat _ := by
    rw [Scalar.integer?_rat, Scalar.ofNat_rat, Int.cast_natCast]
  integer?_add hx hy _ := by
    rw [Scalar.integer?_rat] at hx hy ⊢
    rw [hx, hy, Int.cast_add]
  integer?_mul_twelve hx _ := by
    rw [Scalar.integer?_rat] at hx ⊢
    rw [hx, Scalar.numeral_rat]
    push_cast
    rfl
  isFinite_of_between _ _ _ _ := rfl
  eq_of_le_of_le _ _ := le_antisymm

/-! ## Doubles -/

namespace Double

open Float.Model (UnpackedFloat)
open Float.Model.Format (binary64)
open Float.Model.UnpackedFloat

/-! ### Rounding to the nearest double, with a sign -/

/-- What a number is rounded to where no number is too great. -/
def Rounded (q y : Rat) : Prop :=
  ∃ s x t r, 0 ≤ x ∧ q = signed s x ∧ Scaled x t ∧ Nearest r (x / 2 ^ t) ∧
    y = signed s (r * 2 ^ t)

/-- The place of a number that was rounded; no double is as great as the bounds. -/
def bounded (y : Rat) : Place :=
  if y ≤ -2 ^ (1024 : Int) then ⊥ else if 2 ^ (1024 : Int) ≤ y then ⊤ else placed y

theorem bounded_mono {y z : Rat} (hle : y ≤ z) : bounded y ≤ bounded z := by
  unfold bounded
  by_cases hlow : y ≤ -2 ^ (1024 : Int)
  · rw [if_pos hlow]
    exact bot_le
  · have hlow' : ¬z ≤ -2 ^ (1024 : Int) := fun h => hlow (hle.trans h)
    rw [if_neg hlow, if_neg hlow']
    by_cases hhigh : (2 : Rat) ^ (1024 : Int) ≤ z
    · rw [if_pos hhigh]
      exact le_top
    · rw [if_neg hhigh, if_neg fun h => hhigh (h.trans hle)]
      exact placed_le.mpr hle

theorem bounded_eq_placed {y q : Rat} (h : bounded y = placed q) : y = q := by
  unfold bounded at h
  split at h
  · exact absurd h (bot_lt_placed q).ne
  · split at h
    · exact absurd h (placed_lt_top q).ne'
    · exact le_antisymm (placed_le.mp h.le) (placed_le.mp h.ge)

theorem bounded_signed {x : Rat} (hx : 0 ≤ x) (s : Sign) : bounded (signed s x) =
    if 2 ^ (1024 : Int) ≤ x then match s with | .positive => ⊤ | .negative => ⊥
    else placed (signed s x) := by
  unfold bounded
  have hbound : (0 : Rat) < 2 ^ (1024 : Int) := by positivity
  generalize (2 : Rat) ^ (1024 : Int) = bound at hbound
  cases s with
  | positive => rw [signed, if_neg (by linarith)]
  | negative =>
    refine ite_congr (propext neg_le_neg_iff) (fun _ => rfl) fun _ => if_neg ?_
    rw [signed]
    linarith

theorem Nearest.eq_zero {r : Nat} {t : Int} (h : Nearest r ((0 : Rat) / 2 ^ t)) : r = 0 := by
  rw [zero_div] at h
  exact Nat.le_zero.mp (h.le_of_le Nat.cast_zero.ge)

/-- **A greater number is not rounded to a lesser one.** -/
theorem Rounded.mono {p q y z : Rat} (hp : Rounded p y) (hq : Rounded q z) (hle : p ≤ q) :
    y ≤ z := by
  obtain ⟨s, x, t, r, hx, rfl, hscaled, hnearest, rfl⟩ := hp
  obtain ⟨s', x', t', r', hx', rfl, hscaled', hnearest', rfl⟩ := hq
  have hpos : (0 : Rat) ≤ r * 2 ^ t := by positivity
  have hpos' : (0 : Rat) ≤ r' * 2 ^ t' := by positivity
  cases s with
  | positive =>
    cases s' with
    | positive => exact rounded_le hscaled hnearest hscaled' hnearest' hle
    | negative =>
      -- what is not below zero and not above a negative number is zero, as is the latter
      have hle' : x ≤ -x' := hle
      obtain rfl : x = 0 := by linarith
      obtain rfl : x' = 0 := by linarith
      rw [hnearest.eq_zero, hnearest'.eq_zero]
      simp [signed]
  | negative =>
    cases s' with
    | positive => exact (neg_nonpos.mpr hpos).trans hpos'
    | negative =>
      have hle' : x' ≤ x := neg_le_neg_iff.mp hle
      exact neg_le_neg (rounded_le hscaled' hnearest' hscaled hnearest hle')

/-- An integer is rounded to an integer, and stays what it is where doubles have room for units. -/
theorem Rounded.integer_cases {n : Int} {y : Rat} (h : Rounded n y) :
    y = n ∨ (∃ k : Int, y = k) ∧ (2 : Rat) ^ 53 ≤ |(n : Rat)| := by
  obtain ⟨s, x, t, r, hx, hn, hscaled, hnearest, rfl⟩ := h
  have hsize : |(n : Rat)| = x := by rw [hn, abs_signed, abs_of_nonneg hx]
  obtain ⟨m, rfl⟩ : ∃ m : Nat, x = m :=
    ⟨n.natAbs, by rw [Nat.cast_natAbs, Int.cast_abs, hsize]⟩
  rcases le_or_gt t 0 with hle | hpos
  · -- the number is a multiple of the unit already
    left
    obtain ⟨k, rfl⟩ : ∃ k : Nat, t = -k := ⟨(-t).toNat, by omega⟩
    have htwo : (2 : Rat) ^ k ≠ 0 := pow_ne_zero k two_ne_zero
    have hself : Nearest (m * 2 ^ k) ((m : Rat) / 2 ^ (-(k : Int))) := by
      have hquotient : (m : Rat) / 2 ^ (-(k : Int)) = (m * 2 ^ k : Nat) := by
        rw [zpow_neg, zpow_natCast, div_inv_eq_mul]
        push_cast
        rfl
      rw [hquotient]
      exact nearest_self _
    have hvalue : ((m * 2 ^ k : Nat) : Rat) * 2 ^ (-(k : Int)) = m := by
      rw [zpow_neg, zpow_natCast]
      push_cast
      rw [mul_assoc, mul_inv_cancel₀ htwo, mul_one]
    rw [hnearest.unique hself, hvalue, hn]
  · right
    obtain ⟨k, rfl⟩ := Int.eq_ofNat_of_zero_le hpos.le
    constructor
    · refine ⟨s.apply (r * 2 ^ k : Nat), ?_⟩
      rw [cast_apply, zpow_natCast]
      push_cast
      rfl
    · have hfull := hscaled.full.resolve_left (by omega)
      rw [hsize]
      calc (2 : Rat) ^ 53 = 2 ^ (53 : Int) := rfl
        _ ≤ 2 ^ ((k : Int) + 52) := zpow_le_zpow_right₀ one_le_two (by omega)
        _ ≤ m := hfull

/-- **An integer is rounded to an integer.** -/
theorem Rounded.integer {n : Int} {y : Rat} (h : Rounded n y) : ∃ k : Int, y = k := by
  rcases h.integer_cases with heq | ⟨hinteger, -⟩
  · exact ⟨n, heq⟩
  · exact hinteger

theorem Rounded.eq_of_small {n : Int} {y : Rat} (h : Rounded n y) (hsmall : |n| < 2 ^ 53) :
    y = n := by
  rcases h.integer_cases with heq | ⟨-, hgreat⟩
  · exact heq
  · have hlt : |(n : Rat)| < 2 ^ 53 := by exact_mod_cast hsmall
    exact absurd hgreat (not_le.mpr hlt)

/-- A number, of either sign, rounds to the float. -/
def RoundsSigned (q : Rat) (u : UnpackedFloat) : Prop :=
  ∃ s x, 0 ≤ x ∧ q = signed s x ∧ Rounds s x u

/-- What is rounded has a place. -/
theorem RoundsSigned.exists_place {q : Rat} {u : UnpackedFloat} (h : RoundsSigned q u) :
    ∃ y, Rounded q y ∧ place? (unpack binary64 (pack binary64 u)) = some (bounded y) := by
  obtain ⟨s, x, hx, rfl, t, r, hscaled, hnearest, rfl⟩ := h
  refine ⟨signed s (r * 2 ^ t), ⟨s, x, t, r, hx, rfl, hscaled, hnearest, rfl⟩, ?_⟩
  have hpos : (0 : Rat) ≤ r * 2 ^ t := by positivity
  have hbound : (0 : Rat) < 2 ^ (1024 : Int) := by positivity
  rcases lt_or_ge ((r : Rat) * 2 ^ t) (2 ^ (1024 : Int)) with hlt | hgreat
  · rw [place?_of_value? (value?_pack_rounded hscaled hnearest hlt s), bounded_signed hpos,
      if_neg (not_le.mpr hlt)]
  · rw [pack_rounded_of_great hscaled hnearest hgreat s, bounded_signed hpos, if_pos hgreat]
    cases s with
    | positive => rfl
    | negative => rfl

theorem canonical_zero (s : Sign) : Canonical (.zero s) := fun _ _ _ _ h => nomatch h

theorem Canonical.roundsSigned {u : UnpackedFloat} {q : Rat} (hu : Canonical u)
    (hq : value? u = some q) : RoundsSigned q u := by
  match u, hq with
  | .zero s, rfl =>
    refine ⟨s, 0, le_rfl, by cases s <;> simp [signed], -1074, 0, ⟨by decide, by positivity,
      .inl rfl⟩, ⟨?_, ?_, fun _ => rfl⟩, rfl⟩
    · norm_num
    · norm_num
  | .finite s m e hm, rfl =>
    exact ⟨s, m * 2 ^ e, by positivity, rfl, (hu _ _ _ _ rfl).rounds s⟩

/-! ### Sums -/

/-- The integers that sums are worked out in. -/
theorem roundsSigned_normalize (d e : Int) :
    RoundsSigned (d * 2 ^ e) (normalize binary64 d e .positive) := by
  rcases lt_trichotomy d 0 with hneg | rfl | hpos
  · obtain ⟨k, hk, rfl⟩ : ∃ k : Nat, 0 < k ∧ d = -k := ⟨d.natAbs, by omega, by omega⟩
    rw [UnpackedFloat.normalize, compare_lt_iff_lt.mpr hneg]
    refine ⟨.negative, k * 2 ^ e, by positivity, ?_, ?_⟩
    · rw [signed]
      push_cast
      ring
    · dsimp only
      rw [neg_neg, Int.toNat_natCast]
      exact rounds_round .negative hk e
  · have hzero : normalize binary64 0 e .positive = .zero .positive := rfl
    rw [hzero, Int.cast_zero, zero_mul]
    exact (canonical_zero _).roundsSigned rfl
  · obtain ⟨k, rfl⟩ := Int.eq_ofNat_of_zero_le hpos.le
    rw [UnpackedFloat.normalize, compare_gt_iff_gt.mpr hpos]
    exact ⟨.positive, k * 2 ^ e, by positivity, rfl, rounds_round .positive (by omega) e⟩

/-- **A sum of doubles is rounded**, whatever its sign. -/
theorem roundsSigned_add : ∀ {u v : UnpackedFloat} {p q : Rat}, Canonical u → Canonical v →
    value? u = some p → value? v = some q → RoundsSigned (p + q) (add binary64 u v)
  | .zero s, .zero s', _, _, _, _, rfl, rfl => by
    have hzero : ∃ s'', add binary64 (.zero s) (.zero s') = .zero s'' := by
      cases s <;> cases s' <;> exact ⟨_, rfl⟩
    obtain ⟨s'', hs⟩ := hzero
    rw [hs, add_zero]
    exact (canonical_zero _).roundsSigned rfl
  | .zero _, .finite s m e hm, _, _, _, hv, rfl, rfl => by
    rw [zero_add]
    exact hv.roundsSigned rfl
  | .finite s m e hm, .zero _, _, _, hu, _, rfl, rfl => by
    rw [add_zero]
    exact hu.roundsSigned rfl
  | .finite s m e hm, .finite s' m' e' hm', _, _, _, _, rfl, rfl => by
    unfold add
    dsimp only
    rw [← decreaseExponent_eq s m (min_le_left e e'), ← decreaseExponent_eq s' m'
      (min_le_right e e'), ← add_mul, ← Int.cast_add]
    exact roundsSigned_normalize _ _

theorem add_infinity (s : Sign) {v : UnpackedFloat} {q : Rat} (hv : value? v = some q) :
    add binary64 (.infinity s) v = .infinity s := by
  cases v with
  | notANumber => cases hv
  | infinity => cases hv
  | zero => rfl
  | finite => rfl

theorem add_comm_unpacked : ∀ u v : UnpackedFloat, add binary64 u v = add binary64 v u
  | .notANumber, .notANumber | .notANumber, .infinity _ | .notANumber, .zero _
  | .notANumber, .finite .. | .infinity _, .notANumber | .zero _, .notANumber
  | .finite .., .notANumber | .infinity _, .zero _ | .infinity _, .finite .. | .zero _, .infinity _
  | .finite .., .infinity _ | .zero _, .finite .. | .finite .., .zero _ => rfl
  | .infinity s, .infinity s' | .zero s, .zero s' => by cases s <;> cases s' <;> rfl
  | .finite s m e _, .finite s' m' e' _ => by
    unfold add
    dsimp only
    rw [min_comm e e', Int.add_comm]

/-! ### Octaves -/

theorem held_twelve : Held (12 * 2 ^ 49) (-49) :=
  ⟨by decide, by decide, by decide, by decide, .inl (by decide)⟩

/-- A double of any sign times twelve. -/
theorem rounds_mul_twelve (s : Sign) {m : Nat} (e : Int) (hm : 0 < m) :
    Rounds s (m * 2 ^ e * 12)
      (mul binary64 (.finite s m e hm) (.finite .positive (12 * 2 ^ 49) (-49) (by decide))) := by
  have hsign : s * .positive = s := by cases s <;> rfl
  have htwelve : ((12 * 2 ^ 49 : Nat) : Rat) * 2 ^ (-49 : Int) = 12 := by norm_num
  have hrounds := rounds_mul s .positive e (-49) hm held_twelve.pos (by omega)
  rwa [hsign, htwelve] at hrounds

theorem roundsSigned_mul_twelve : ∀ {u : UnpackedFloat} {p : Rat}, value? u = some p →
    RoundsSigned (p * 12) (mul binary64 u (.finite .positive (12 * 2 ^ 49) (-49) (by decide)))
  | .zero s, _, rfl => by
    rw [zero_mul]
    exact (canonical_zero _).roundsSigned rfl
  | .finite s m e hm, _, rfl => by
    refine ⟨s, m * 2 ^ e * 12, by positivity, ?_, rounds_mul_twelve s e hm⟩
    cases s with
    | positive => rfl
    | negative => exact neg_mul _ _

theorem unpack_mul_twelve (x : Float) :
    unpack binary64 (x * Scalar.ofNat 12).toModel.toBits.toBitVec
      = unpack binary64 (pack binary64 (mul binary64 (unpack binary64 x.toModel.toBits.toBitVec)
        (.finite .positive (12 * 2 ^ 49) (-49) (by decide)))) := by
  rw [← unpack_ofNat_twelve]
  rfl

/-- A double times twelve is no negative zero unless it is one: it does not become less in size. -/
theorem notMinusZero_mul_twelve {u : UnpackedFloat} (hu : Canonical u) (h : NotMinusZero u) :
    NotMinusZero (unpack binary64 (pack binary64
      (mul binary64 u (.finite .positive (12 * 2 ^ 49) (-49) (by decide))))) := by
  match u with
  | .notANumber => exact .of_eq unpack_pack_notANumber trivial
  | .infinity s => exact .of_eq (unpack_pack_infinity _) trivial
  | .zero .positive => exact .of_eq (unpack_pack_zero .positive) trivial
  | .zero .negative => exact absurd h id
  | .finite s m e hm =>
    have hheld := hu _ _ _ _ rfl
    have hsize : (2 : Rat) ^ (-1074 : Int) ≤ m * 2 ^ e * 12 := by
      have hone : (1 : Rat) ≤ m := by exact_mod_cast hm
      calc (2 : Rat) ^ (-1074 : Int) ≤ 2 ^ e := zpow_le_zpow_right₀ one_le_two hheld.least
        _ ≤ m * 2 ^ e := le_mul_of_one_le_left (by positivity) hone
        _ ≤ m * 2 ^ e * 12 := le_mul_of_one_le_right (by positivity) (by norm_num)
    rcases (rounds_mul_twelve s e hm).held_or_infinite hsize with
      ⟨m', e', hheld', hfinite⟩ | hinfinite
    · rw [hfinite]
      exact .of_eq (hheld'.unpack_pack _) trivial
    · rw [hinfinite]
      exact .of_eq (unpack_pack_infinity _) trivial

/-! ### From place to place -/

/-- An operation takes a number to another place, where it is rounded, and leaves what is infinite
where it is. -/
def Carried (f : Rat → Rat) (a b : Place) : Prop :=
  (∃ p z, a = placed p ∧ Rounded (f p) z ∧ b = bounded z) ∨ (∀ p, a ≠ placed p) ∧ b = a

section

variable {f g : Rat → Rat} {a b a' b' : Place}

theorem placed_inj {p q : Rat} (h : placed p = placed q) : p = q :=
  le_antisymm (placed_le.mp h.le) (placed_le.mp h.ge)

/-- **What is in order is carried to places in order.** -/
theorem Carried.mono (hb : Carried f a b) (hb' : Carried g a' b')
    (hfg : ∀ p q, p ≤ q → f p ≤ g q) (hle : a ≤ a') : b ≤ b' := by
  rcases hb with ⟨p, z, rfl, hz, heq⟩ | ⟨hinfinite, rfl⟩
  · rcases hb' with ⟨q, z', rfl, hz', heq'⟩ | ⟨hinfinite, rfl⟩
    · rw [heq, heq']
      exact bounded_mono (hz.mono hz' (hfg p q (placed_le.mp hle)))
    · -- the greater place can only be the one above all numbers
      have htop : b' = ⊤ := by
        match b', hinfinite, hle with
        | ⊤, _, _ => rfl
        | ⊥, _, hle => exact absurd (bot_lt_placed p) (not_lt.mpr hle)
        | ((q : Rat) : WithTop Rat), hinfinite, _ => exact absurd rfl (hinfinite q)
      rw [htop]
      exact le_top
  · rcases hb' with ⟨q, z', rfl, -, -⟩ | ⟨-, rfl⟩
    · have hbot : b = ⊥ := by
        match b, hinfinite, hle with
        | ⊥, _, _ => rfl
        | ⊤, _, hle => exact absurd (placed_lt_top q) (not_lt.mpr hle)
        | ((p : Rat) : WithTop Rat), hinfinite, _ => exact absurd rfl (hinfinite p)
      rw [hbot]
      exact bot_le
    · exact hle

/-- Integers are carried to integers. -/
theorem Carried.integer (h : Carried f a b) (hf : ∀ m : Int, ∃ n : Int, f m = n)
    (ha : ∀ q, a = placed q → ∃ m : Int, q = m) : ∀ q, b = placed q → ∃ n : Int, q = n := by
  intro q hq
  rcases h with ⟨p, z, rfl, hz, heq⟩ | ⟨-, rfl⟩
  · obtain ⟨m, rfl⟩ := ha p rfl
    obtain ⟨n, hn⟩ := hf m
    rw [hn] at hz
    rw [← bounded_eq_placed (heq.symm.trans hq)]
    exact hz.integer
  · exact ha q hq

/-- Small integers are carried to where they belong. -/
theorem Carried.eq_placed {p : Rat} {n : Int} (h : Carried f (placed p) b) (hn : f p = n)
    (hsmall : |n| < 2 ^ 53) : b = placed n := by
  rcases h with ⟨p', z, hp, hz, heq⟩ | ⟨hinfinite, -⟩
  · obtain rfl := placed_inj hp
    rw [hn] at hz
    rw [heq, hz.eq_of_small hsmall]
    have hlt : |(n : Rat)| < 2 ^ (1024 : Int) := by
      have hsmall' : |(n : Rat)| < 2 ^ (53 : Int) := by exact_mod_cast hsmall
      exact hsmall'.trans (zpow_lt_zpow_right₀ one_lt_two (by decide))
    obtain ⟨hlow, hhigh⟩ := abs_lt.mp hlt
    unfold bounded
    rw [if_neg (not_le.mpr hlow), if_neg (not_le.mpr hhigh)]
  · exact absurd rfl (hinfinite p)

end

section

variable {x y : Float} {a : Place} {q : Rat}

theorem carried_infinite (f : Rat → Rat) (ha : a = ⊤ ∨ a = ⊥) : Carried f a a := by
  refine .inr ⟨fun p => ?_, rfl⟩
  rcases ha with rfl | rfl
  · exact (placed_lt_top p).ne'
  · exact (bot_lt_placed p).ne

/-- A sum with a finite number. -/
theorem exists_placeOf?_add (hx : placeOf? x = some a) (hy : valueOf? y = some q) :
    ∃ b, placeOf? (x + y) = some b ∧ Carried (· + q) a b := by
  unfold placeOf? at hx ⊢
  rw [unpack_add]
  rcases value?_or_infinite hx with ⟨p, hp, rfl⟩ | ⟨hu, rfl⟩ | ⟨hu, rfl⟩
  · obtain ⟨z, hz, hplace⟩ :=
      (roundsSigned_add (canonical_unpack _) (canonical_unpack _) hp hy).exists_place
    exact ⟨_, hplace, .inl ⟨p, z, rfl, hz, rfl⟩⟩
  · rw [hu, add_infinity .positive hy, unpack_pack_infinity]
    exact ⟨⊤, rfl, carried_infinite _ (.inl rfl)⟩
  · rw [hu, add_infinity .negative hy, unpack_pack_infinity]
    exact ⟨⊥, rfl, carried_infinite _ (.inr rfl)⟩

/-- As many semitones as there are in octaves. -/
theorem exists_placeOf?_mul_twelve (hx : placeOf? x = some a) :
    ∃ b, placeOf? (x * Scalar.ofNat 12) = some b ∧ Carried (· * 12) a b := by
  unfold placeOf? at hx ⊢
  rw [unpack_mul_twelve]
  rcases value?_or_infinite hx with ⟨p, hp, rfl⟩ | ⟨hu, rfl⟩ | ⟨hu, rfl⟩
  · obtain ⟨z, hz, hplace⟩ := (roundsSigned_mul_twelve hp).exists_place
    exact ⟨_, hplace, .inl ⟨p, z, rfl, hz, rfl⟩⟩
  · rw [hu]
    exact ⟨⊤, rfl, carried_infinite _ (.inl rfl)⟩
  · rw [hu]
    exact ⟨⊥, rfl, carried_infinite _ (.inr rfl)⟩

theorem valueOf?_of_placeOf? (h : placeOf? x = some (placed q)) : valueOf? x = some q := by
  rcases value?_or_infinite h with ⟨p, hp, heq⟩ | ⟨-, heq⟩ | ⟨-, heq⟩
  · rw [placed_inj heq]
    exact hp
  · exact absurd heq (placed_lt_top q).ne
  · exact absurd heq (bot_lt_placed q).ne'

theorem exists_value_of_isFinite (h : Scalar.isFinite x = true) : ∃ q, valueOf? x = some q := by
  rw [isFinite_eq] at h
  exact Option.isSome_iff_exists.mp h

/-- What a whole double is, by its place. -/
theorem whole_iff_placeOf? :
    Scalar.Whole x ↔ ∃ a, placeOf? x = some a ∧ ∀ q, a = placed q → ∃ n : Int, q = n := by
  constructor
  · intro h
    obtain ⟨a, ha⟩ := isNumber_iff_placeOf?.mp h.isNumber
    refine ⟨a, ha, fun q hq => ?_⟩
    have hvalue := valueOf?_of_placeOf? (hq ▸ ha)
    have hfinite : Scalar.isFinite x = true := by
      rw [isFinite_eq, hvalue]
      rfl
    obtain ⟨n, hn⟩ := Option.isSome_iff_exists.mp (h.isSome_integer? hfinite)
    exact ⟨n, Option.some.inj (hvalue.symm.trans (integer?_iff_valueOf?.mp hn))⟩
  · rintro ⟨a, ha, hinteger⟩
    refine ⟨isNumber_iff_placeOf?.mpr ⟨a, ha⟩, fun hfinite => ?_⟩
    obtain ⟨q, hq⟩ := exists_value_of_isFinite hfinite
    obtain ⟨n, rfl⟩ := hinteger q (Option.some.inj (ha.symm.trans (placeOf?_of_valueOf? hq)))
    exact Option.isSome_of_mem (integer?_iff_valueOf?.mpr hq)

end

/-! ### Doubles at one place -/

theorem value?_finite_ne_zero (s : Sign) {m : Nat} (e : Int) (hm : 0 < m) :
    value? (.finite s m e hm) ≠ some 0 := by
  have hpos : (0 : Rat) < m * 2 ^ e := by positivity
  intro h
  cases s with
  | positive => exact hpos.ne' (Option.some.inj h)
  | negative => exact (neg_neg_of_pos hpos).ne (Option.some.inj h)

/-- Of every sign and size there is one finite double. -/
theorem finite_eq_of_value? {s s' : Sign} {m m' : Nat} {e e' : Int} {hm : 0 < m} {hm' : 0 < m'}
    (h : Held m e) (h' : Held m' e')
    (hvalue : value? (.finite s m e hm) = value? (.finite s' m' e' hm')) :
    UnpackedFloat.finite s m e hm = .finite s' m' e' hm' := by
  have hpos : (0 : Rat) < m * 2 ^ e := by positivity
  have hpos' : (0 : Rat) < m' * 2 ^ e' := by positivity
  have hsigned : signed s (m * 2 ^ e) = signed s' (m' * 2 ^ e') := Option.some.inj hvalue
  have hsign : s = s' := by
    cases s <;> cases s' <;> first | rfl | (simp only [signed] at hsigned; linarith)
  subst hsign
  have hsize : (m : Rat) * 2 ^ e = m' * 2 ^ e' := by
    cases s with
    | positive => exact hsigned
    | negative => exact neg_inj.mp hsigned
  have hrounds := h.rounds s
  rw [hsize] at hrounds
  exact hrounds.unique (h'.rounds s)

/-- Of every value there is one double, except that there are two zeros. -/
theorem eq_of_value? {u v : UnpackedFloat} {p : Rat} (hu : Canonical u) (hv : Canonical v)
    (hplus : NotMinusZero u) (hplus' : NotMinusZero v) (hp : value? u = some p)
    (hq : value? v = some p) : u = v := by
  cases u with
  | notANumber => cases hp
  | infinity => cases hp
  | zero s =>
    obtain rfl : 0 = p := Option.some.inj hp
    cases v with
    | notANumber => cases hq
    | infinity => cases hq
    | zero s' =>
      cases s with
      | negative => exact hplus.elim
      | positive =>
        cases s' with
        | negative => exact hplus'.elim
        | positive => rfl
    | finite s' m' e' hm' => exact absurd hq (value?_finite_ne_zero s' e' hm')
  | finite s m e hm =>
    cases v with
    | notANumber => cases hq
    | infinity => cases hq
    | zero s' =>
      obtain rfl : 0 = p := Option.some.inj hq
      exact absurd hp (value?_finite_ne_zero s e hm)
    | finite s' m' e' hm' =>
      exact finite_eq_of_value? (hu _ _ _ _ rfl) (hv _ _ _ _ rfl) (hp.trans hq.symm)

/-- At every place there is one double, except that there are two zeros. -/
theorem eq_of_place? {u v : UnpackedFloat} {a : Place} (hu : Canonical u) (hv : Canonical v)
    (hplus : NotMinusZero u) (hplus' : NotMinusZero v) (ha : place? u = some a)
    (hb : place? v = some a) : u = v := by
  rcases value?_or_infinite ha with ⟨p, hp, rfl⟩ | ⟨rfl, rfl⟩ | ⟨rfl, rfl⟩
  · rcases value?_or_infinite hb with ⟨q, hq, heq⟩ | ⟨-, heq⟩ | ⟨-, heq⟩
    · exact eq_of_value? hu hv hplus hplus' hp (placed_inj heq ▸ hq)
    · exact absurd heq (placed_lt_top p).ne
    · exact absurd heq (bot_lt_placed p).ne'
  · rcases value?_or_infinite hb with ⟨q, -, heq⟩ | ⟨rfl, -⟩ | ⟨-, heq⟩
    · exact absurd heq (placed_lt_top q).ne'
    · rfl
    · exact absurd heq bot_lt_top.ne'
  · rcases value?_or_infinite hb with ⟨q, -, heq⟩ | ⟨-, heq⟩ | ⟨rfl, -⟩
    · exact absurd heq (bot_lt_placed q).ne
    · exact absurd heq bot_lt_top.ne
    · rfl

end Double

open Double

instance : IntegerSums Float where
  add_comm x y := float_ext_unpack (by rw [unpack_add, unpack_add, add_comm_unpacked])
  add_le_add {x y z} hx hfinite hle := by
    rcases hfinite with hfinite | ⟨hyfinite, hzfinite⟩
    · -- a finite number is added to two that may be infinite
      obtain ⟨q, hq⟩ := exists_value_of_isFinite hfinite
      obtain ⟨a, a', ha, ha', hplaces⟩ := le_iff_placeOf?.mp hle
      obtain ⟨b, hb, hcarried⟩ := exists_placeOf?_add ha hq
      obtain ⟨b', hb', hcarried'⟩ := exists_placeOf?_add ha' hq
      have hcomm (w : Float) : x + w = w + x :=
        float_ext_unpack (by rw [unpack_add, unpack_add, add_comm_unpacked])
      rw [hcomm y, hcomm z]
      exact le_iff_placeOf?.mpr ⟨b, b', hb, hb', hcarried.mono hcarried'
        (fun p p' h => (add_le_add_iff_right q).mpr h) hplaces⟩
    · obtain ⟨q, hq⟩ := exists_value_of_isFinite hyfinite
      obtain ⟨q', hq'⟩ := exists_value_of_isFinite hzfinite
      have hvalues := (le_iff_valueOf? hq hq').mp hle
      obtain ⟨a, ha⟩ := isNumber_iff_placeOf?.mp hx
      obtain ⟨b, hb, hcarried⟩ := exists_placeOf?_add ha hq
      obtain ⟨b', hb', hcarried'⟩ := exists_placeOf?_add ha hq'
      exact le_iff_placeOf?.mpr ⟨b, b', hb, hb', hcarried.mono hcarried'
        (fun p p' h => add_le_add h hvalues) le_rfl⟩
  mul_twelve_le hle := by
    obtain ⟨a, a', ha, ha', hplaces⟩ := le_iff_placeOf?.mp hle
    obtain ⟨b, hb, hcarried⟩ := exists_placeOf?_mul_twelve ha
    obtain ⟨b', hb', hcarried'⟩ := exists_placeOf?_mul_twelve ha'
    exact le_iff_placeOf?.mpr ⟨b, b', hb, hb', hcarried.mono hcarried'
      (fun p p' h => mul_le_mul_of_nonneg_right h (by norm_num)) hplaces⟩
  whole_add hx hy := by
    obtain ⟨a, ha, hinteger⟩ := whole_iff_placeOf?.mp hx
    obtain ⟨n, hn⟩ := Option.isSome_iff_exists.mp hy
    obtain ⟨b, hb, hcarried⟩ := exists_placeOf?_add ha (integer?_iff_valueOf?.mp hn)
    exact whole_iff_placeOf?.mpr
      ⟨b, hb, hcarried.integer (fun m => ⟨m + n, (Int.cast_add m n).symm⟩) hinteger⟩
  whole_mul_twelve hx := by
    obtain ⟨a, ha, hinteger⟩ := whole_iff_placeOf?.mp hx
    obtain ⟨b, hb, hcarried⟩ := exists_placeOf?_mul_twelve ha
    refine whole_iff_placeOf?.mpr ⟨b, hb, hcarried.integer (fun m => ⟨m * 12, ?_⟩) hinteger⟩
    push_cast
    rfl
  zero_add_mul_twelve {x} hx :=
    zero_add_iff.mpr (.of_eq (unpack_mul_twelve x)
      (notMinusZero_mul_twelve (canonical_unpack _) (zero_add_iff.mp hx)))
  integer?_ofNat {n} hlt :=
    integer?_iff_valueOf?.mpr (by rw [valueOf?_scalarOfNat hlt, Int.cast_natCast])
  integer?_add hx hy hsmall := by
    rw [integer?_iff_valueOf?] at hx hy ⊢
    obtain ⟨b, hb, hcarried⟩ := exists_placeOf?_add (placeOf?_of_valueOf? hx) hy
    obtain rfl := hcarried.eq_placed (Int.cast_add _ _).symm hsmall
    exact valueOf?_of_placeOf? hb
  integer?_mul_twelve {x n} hx hsmall := by
    rw [integer?_iff_valueOf?] at hx ⊢
    obtain ⟨b, hb, hcarried⟩ := exists_placeOf?_mul_twelve (placeOf?_of_valueOf? hx)
    have hproduct : (n : Rat) * 12 = ((n * 12 : Int) : Rat) := by
      push_cast
      rfl
    obtain rfl := hcarried.eq_placed hproduct hsmall
    exact valueOf?_of_placeOf? hb
  isFinite_of_between {x y z} hx hz hxy hyz := by
    obtain ⟨p, hp⟩ := exists_value_of_isFinite hx
    obtain ⟨q, hq⟩ := exists_value_of_isFinite hz
    obtain ⟨a, b, ha, hb, hab⟩ := le_iff_placeOf?.mp hxy
    obtain ⟨b', c, hb', hc, hbc⟩ := le_iff_placeOf?.mp hyz
    obtain rfl := Option.some.inj (hb.symm.trans hb')
    obtain rfl := Option.some.inj (ha.symm.trans (placeOf?_of_valueOf? hp))
    obtain rfl := Option.some.inj (hc.symm.trans (placeOf?_of_valueOf? hq))
    rw [isFinite_eq]
    rcases value?_or_infinite hb with ⟨r, hr, -⟩ | ⟨-, rfl⟩ | ⟨-, rfl⟩
    · exact Option.isSome_of_mem hr
    · exact absurd (placed_lt_top q) (not_lt.mpr hbc)
    · exact absurd (bot_lt_placed p) (not_lt.mpr hab)
  eq_of_le_of_le {x y} hx hy hxy hyx := by
    obtain ⟨a, b, ha, hb, hab⟩ := le_iff_placeOf?.mp hxy
    obtain ⟨b', a', hb', ha', hba⟩ := le_iff_placeOf?.mp hyx
    obtain rfl := Option.some.inj (ha.symm.trans ha')
    obtain rfl := Option.some.inj (hb.symm.trans hb')
    obtain rfl := le_antisymm hab hba
    exact float_ext_unpack (eq_of_place? (canonical_unpack _) (canonical_unpack _)
      (zero_add_iff.mp hx) (zero_add_iff.mp hy) ha hb)

end LeadSheet
