import LeadSheet.Proofs.Number.Doubles
import Mathlib.Order.WithBot

/-!
# Numbers in order

A type of scalars may hold values that compare with nothing, not even with themselves. All others
are in order, the infinite ones among them: of two numbers one is not above the other, what is not
above a number is not above any greater number either, and less means that the other way round does
not hold. On the fractions nothing is left out; on the doubles a number has a place among the
fractions, or below or above all of them (`Double.placeOf?`).
-/

namespace LeadSheet

/-- A number compares with itself. -/
def Scalar.IsNumber {α : Type} [Scalar α] (x : α) : Prop := x ≤ x

/-- Numbers are in order, and nothing else compares. -/
class OrderedNumbers (α : Type) [Scalar α] : Prop where
  isNumber_of_le {x y : α} : x ≤ y → Scalar.IsNumber x ∧ Scalar.IsNumber y
  le_trans {x y z : α} : x ≤ y → y ≤ z → x ≤ z
  le_total {x y : α} : Scalar.IsNumber x → Scalar.IsNumber y → x ≤ y ∨ y ≤ x
  lt_iff_le_not_le {x y : α} : x < y ↔ x ≤ y ∧ ¬y ≤ x

namespace OrderedNumbers

variable {α : Type} [Scalar α] [OrderedNumbers α] {x y z : α}

theorem lt_of_le_of_lt (hle : x ≤ y) (hlt : y < z) : x < z := by
  obtain ⟨hyz, hnot⟩ := lt_iff_le_not_le.mp hlt
  exact lt_iff_le_not_le.mpr ⟨le_trans hle hyz, fun hzx => hnot (le_trans hzx hle)⟩

theorem lt_of_lt_of_le (hlt : x < y) (hle : y ≤ z) : x < z := by
  obtain ⟨hxy, hnot⟩ := lt_iff_le_not_le.mp hlt
  exact lt_iff_le_not_le.mpr ⟨le_trans hxy hle, fun hzx => hnot (le_trans hle hzx)⟩

/-- A number that is not below another one is at it or above it. -/
theorem le_of_not_lt (hx : Scalar.IsNumber x) (hy : Scalar.IsNumber y) (hnot : ¬x < y) :
    y ≤ x := by
  rcases le_total hx hy with hle | hle
  · by_contra hyx
    exact hnot (lt_iff_le_not_le.mpr ⟨hle, hyx⟩)
  · exact hle

end OrderedNumbers

/-! ## Fractions -/

instance : OrderedNumbers Rat where
  isNumber_of_le _ := ⟨le_rfl, le_rfl⟩
  le_trans := le_trans
  le_total _ _ := le_total _ _
  lt_iff_le_not_le := lt_iff_le_not_ge

/-! ## Doubles -/

namespace Double

open Float.Model (UnpackedFloat)
open Float.Model.Format (binary64)
open Float.Model.UnpackedFloat

/-- The fractions, and a place below and one above all of them. -/
abbrev Place : Type := WithBot (WithTop Rat)

/-- The place of a fraction. -/
def placed (q : Rat) : Place := ((q : WithTop Rat) : Place)

theorem placed_le {p q : Rat} : placed p ≤ placed q ↔ p ≤ q := by
  unfold placed
  rw [WithBot.coe_le_coe, WithTop.coe_le_coe]

theorem placed_lt {p q : Rat} : placed p < placed q ↔ p < q := by
  unfold placed
  rw [WithBot.coe_lt_coe, WithTop.coe_lt_coe]

theorem bot_lt_placed (q : Rat) : (⊥ : Place) < placed q := WithBot.bot_lt_coe _

theorem placed_lt_top (q : Rat) : placed q < (⊤ : Place) :=
  WithBot.coe_lt_coe.mpr (WithTop.coe_lt_top q)

/-- The place of a float, if it is a number. -/
def place? : UnpackedFloat → Option Place
  | .notANumber => none
  | .infinity .positive => some ⊤
  | .infinity .negative => some ⊥
  | .zero _ => some (placed 0)
  | .finite s m e _ => some (placed (signed s (m * 2 ^ e)))

theorem place?_of_value? : ∀ {u : UnpackedFloat} {q : Rat}, value? u = some q →
    place? u = some (placed q)
  | .zero _, _, rfl => rfl
  | .finite _ _ _ _, _, rfl => rfl

theorem compare_placed (p q : Rat) : compare (placed p) (placed q) = compare p q := by
  rcases lt_trichotomy p q with h | rfl | h
  · rw [compare_lt_iff_lt.mpr h, compare_lt_iff_lt.mpr (placed_lt.mpr h)]
  · rw [compare_eq_iff_eq.mpr rfl, compare_eq_iff_eq.mpr rfl]
  · rw [compare_gt_iff_gt.mpr h, compare_gt_iff_gt.mpr (placed_lt.mpr h)]

/-- A number without a value is infinite. -/
theorem value?_or_infinite : ∀ {u : UnpackedFloat} {a : Place}, place? u = some a →
    (∃ q, value? u = some q ∧ a = placed q) ∨ u = .infinity .positive ∧ a = ⊤ ∨
      u = .infinity .negative ∧ a = ⊥
  | .zero _, _, rfl => .inl ⟨0, rfl, rfl⟩
  | .finite _ _ _ _, _, rfl => .inl ⟨_, rfl, rfl⟩
  | .infinity .positive, _, rfl => .inr (.inl ⟨rfl, rfl⟩)
  | .infinity .negative, _, rfl => .inr (.inr ⟨rfl, rfl⟩)

/-- **Doubles compare as their places do.** -/
theorem compare_place {u v : UnpackedFloat} {a b : Place} (hu : Canonical u) (hv : Canonical v)
    (ha : place? u = some a) (hb : place? v = some b) : u.compare v = some (compare a b) := by
  rcases value?_or_infinite ha with ⟨p, hp, rfl⟩ | ⟨rfl, rfl⟩ | ⟨rfl, rfl⟩
  · rcases value?_or_infinite hb with ⟨q, hq, rfl⟩ | ⟨rfl, rfl⟩ | ⟨rfl, rfl⟩
    · rw [compare_eq hu hv hp hq, compare_placed]
    · rw [compare_lt_iff_lt.mpr (placed_lt_top p)]
      match u, hp with
      | .zero _, _ | .finite .positive _ _ _, _ | .finite .negative _ _ _, _ => rfl
    · rw [compare_gt_iff_gt.mpr (bot_lt_placed p)]
      match u, hp with
      | .zero _, _ | .finite .positive _ _ _, _ | .finite .negative _ _ _, _ => rfl
  · rcases value?_or_infinite hb with ⟨q, hq, rfl⟩ | ⟨rfl, rfl⟩ | ⟨rfl, rfl⟩
    · rw [compare_gt_iff_gt.mpr (placed_lt_top q)]
      match v, hq with
      | .zero _, _ | .finite _ _ _ _, _ => rfl
    · rw [compare_eq_iff_eq.mpr rfl]
      rfl
    · rw [compare_gt_iff_gt.mpr bot_lt_top]
      rfl
  · rcases value?_or_infinite hb with ⟨q, hq, rfl⟩ | ⟨rfl, rfl⟩ | ⟨rfl, rfl⟩
    · rw [compare_lt_iff_lt.mpr (bot_lt_placed q)]
      match v, hq with
      | .zero _, _ | .finite _ _ _ _, _ => rfl
    · rw [compare_lt_iff_lt.mpr bot_lt_top]
      rfl
    · rw [compare_eq_iff_eq.mpr rfl]
      rfl

theorem compare_of_place?_eq_none {u v : UnpackedFloat} (h : place? u = none ∨ place? v = none) :
    u.compare v = none := by
  rcases h with h | h
  · match u, h with
    | .notANumber, _ => cases v <;> rfl
    | .infinity .positive, h | .infinity .negative, h => cases h
  · match v, h with
    | .notANumber, _ => cases u <;> rfl
    | .infinity .positive, h | .infinity .negative, h => cases h

/-- The place of a double, if it is a number. -/
def placeOf? (x : Float) : Option Place := place? (unpack binary64 x.toModel.toBits.toBitVec)

theorem placeOf?_of_valueOf? {x : Float} {q : Rat} (hx : valueOf? x = some q) :
    placeOf? x = some (placed q) :=
  place?_of_value? hx

section

variable {x y : Float}

theorem le_iff_placeOf? :
    x ≤ y ↔ ∃ a b, placeOf? x = some a ∧ placeOf? y = some b ∧ a ≤ b := by
  rw [le_iff_compare]
  unfold placeOf?
  match hx : place? (unpack binary64 x.toModel.toBits.toBitVec),
    hy : place? (unpack binary64 y.toModel.toBits.toBitVec) with
  | some a, some b =>
    rw [compare_place (canonical_unpack _) (canonical_unpack _) hx hy]
    change (compare a b).isLE = true ↔ _
    rw [← Ordering.ne_gt_iff_isLE]
    simp [compare_le_iff_le]
  | none, _ =>
    rw [compare_of_place?_eq_none (.inl hx)]
    simp
  | some _, none =>
    rw [compare_of_place?_eq_none (.inr hy)]
    simp

theorem lt_iff_placeOf? :
    x < y ↔ ∃ a b, placeOf? x = some a ∧ placeOf? y = some b ∧ a < b := by
  rw [lt_iff_compare]
  unfold placeOf?
  match hx : place? (unpack binary64 x.toModel.toBits.toBitVec),
    hy : place? (unpack binary64 y.toModel.toBits.toBitVec) with
  | some a, some b =>
    rw [compare_place (canonical_unpack _) (canonical_unpack _) hx hy, beq_iff_eq,
      Option.some.injEq, compare_lt_iff_lt]
    simp
  | none, _ =>
    rw [compare_of_place?_eq_none (.inl hx)]
    simp
  | some _, none =>
    rw [compare_of_place?_eq_none (.inr hy)]
    simp

theorem isNumber_iff_placeOf? : Scalar.IsNumber x ↔ ∃ a, placeOf? x = some a := by
  unfold Scalar.IsNumber
  rw [le_iff_placeOf?]
  constructor
  · rintro ⟨a, -, ha, -⟩
    exact ⟨a, ha⟩
  · rintro ⟨a, ha⟩
    exact ⟨a, a, ha, ha, le_rfl⟩

end

end Double

open Double

instance : OrderedNumbers Float where
  isNumber_of_le h := by
    obtain ⟨a, b, ha, hb, -⟩ := le_iff_placeOf?.mp h
    exact ⟨isNumber_iff_placeOf?.mpr ⟨a, ha⟩, isNumber_iff_placeOf?.mpr ⟨b, hb⟩⟩
  le_trans h h' := by
    obtain ⟨a, b, ha, hb, hab⟩ := le_iff_placeOf?.mp h
    obtain ⟨b', c, hb', hc, hbc⟩ := le_iff_placeOf?.mp h'
    obtain rfl := Option.some.inj (hb.symm.trans hb')
    exact le_iff_placeOf?.mpr ⟨a, c, ha, hc, hab.trans hbc⟩
  le_total h h' := by
    obtain ⟨a, ha⟩ := isNumber_iff_placeOf?.mp h
    obtain ⟨b, hb⟩ := isNumber_iff_placeOf?.mp h'
    exact (le_total a b).imp (fun hab => le_iff_placeOf?.mpr ⟨a, b, ha, hb, hab⟩)
      fun hba => le_iff_placeOf?.mpr ⟨b, a, hb, ha, hba⟩
  lt_iff_le_not_le {x y} := by
    rw [lt_iff_placeOf?, le_iff_placeOf?]
    constructor
    · rintro ⟨a, b, ha, hb, hab⟩
      refine ⟨⟨a, b, ha, hb, hab.le⟩, fun hle => ?_⟩
      obtain ⟨b', a', hb', ha', hba⟩ := le_iff_placeOf?.mp hle
      obtain rfl := Option.some.inj (ha.symm.trans ha')
      obtain rfl := Option.some.inj (hb.symm.trans hb')
      exact absurd hab (not_lt.mpr hba)
    · rintro ⟨⟨a, b, ha, hb, -⟩, hnot⟩
      exact ⟨a, b, ha, hb, lt_of_not_ge fun hba =>
        hnot (le_iff_placeOf?.mpr ⟨b, a, hb, ha, hba⟩)⟩

end LeadSheet
