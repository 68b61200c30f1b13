import LeadSheet.Proofs.Sorting.Search
import Mathlib.Logic.Relation

/-!
# Halving, round by round

`partitionPoint` is given as many rounds as there are items, and gives up where it looks at a place
without an item. Neither is ever what ends it. A round leaves no more than half of what lay between
the two places (`Halves.width_le`), so that on any list whatever the rounds go on until the places
meet, and they meet at what the search answers (`halves_partitionPoint`).

Whether that number means anything depends on the list. If a test that fails goes on to fail, it is
the number of items that satisfy it (`Cut.countP_eq`).
-/

namespace LeadSheet.Sorting

variable {β : Type} {test : β → Bool} {items : List β} {low high low' high' place : Nat}

/-! ## Rounds -/

/-- A round of the search: from two places to the next two, on one side or the other of the item in
the middle. -/
inductive Halves (test : β → Bool) (items : List β) : Nat × Nat → Nat × Nat → Prop where
  | behind {low high : Nat} {item : β} : low < high → items[(low + high) / 2]? = some item →
      test item = true → Halves test items (low, high) ((low + high) / 2 + 1, high)
  | before {low high : Nat} {item : β} : low < high → items[(low + high) / 2]? = some item →
      test item = false → Halves test items (low, high) (low, (low + high) / 2)

/-- There is a round as long as the places have not met. -/
theorem exists_halves (test : β → Bool) (hlt : low < high) (hle : high ≤ items.length) :
    ∃ low' high', Halves test items (low, high) (low', high') := by
  have hinside : (low + high) / 2 < items.length := by omega
  have hitem := List.getElem?_eq_getElem hinside
  by_cases htest : test items[(low + high) / 2] = true
  · exact ⟨_, _, .behind hlt hitem htest⟩
  · exact ⟨_, _, .before hlt hitem (Bool.not_eq_true _ ▸ htest)⟩

/-- There is none once they have. -/
theorem not_halves_self (place : Nat) (next : Nat × Nat) :
    ¬Halves test items (place, place) next := by
  intro h
  cases h with
  | behind hlt => exact Nat.lt_irrefl _ hlt
  | before hlt => exact Nat.lt_irrefl _ hlt

namespace Halves

/-- The places come nearer to each other and do not pass. -/
theorem nested (h : Halves test items (low, high) (low', high')) :
    low ≤ low' ∧ low' ≤ high' ∧ high' ≤ high := by
  cases h with
  | behind hlt => omega
  | before hlt => omega

/-- Half of what lay between the places is left, at most. -/
theorem width_le (h : Halves test items (low, high) (low', high')) :
    high' - low' ≤ (high - low) / 2 := by
  cases h with
  | behind hlt => omega
  | before hlt => omega

theorem lt (h : Halves test items (low, high) (low', high')) : low < high := by
  cases h with
  | behind hlt => exact hlt
  | before hlt => exact hlt

/-- A round is what the search does between two places. -/
theorem partitionPointFrom_eq (h : Halves test items (low, high) (low', high')) (steps : Nat) :
    partitionPointFrom false test items (steps + 1) low high
      = partitionPointFrom false test items steps low' high' := by
  rw [partitionPointFrom, if_pos h.lt]
  cases h with
  | behind _ hitem htest => simp [hitem, htest]
  | before _ hitem htest => simp [hitem, htest]

end Halves

/-! ## The search -/

/-- The rounds go on until the places meet. The induction is on the number of rounds that the search
is given; what lies between the places is never more. -/
theorem halves_partitionPointFrom :
    ∀ (steps low high : Nat), low ≤ high → high ≤ items.length → high - low ≤ steps →
      Relation.ReflTransGen (Halves test items) (low, high)
        (partitionPointFrom false test items steps low high,
          partitionPointFrom false test items steps low high)
  | 0, low, high, hle, _, hsteps => by
      obtain rfl : low = high := by omega
      exact .refl
  | steps + 1, low, high, hle, hlength, hsteps => by
      by_cases hlt : low < high
      · obtain ⟨low', high', hround⟩ := exists_halves test hlt hlength
        obtain ⟨-, hle', hhigh⟩ := hround.nested
        have hwidth := hround.width_le
        rw [hround.partitionPointFrom_eq steps]
        exact .head hround (halves_partitionPointFrom steps low' high' hle' (by omega) (by omega))
      · obtain rfl : low = high := by omega
        rw [partitionPointFrom, if_neg hlt]

/-- **The search ends**, on any list, with both places at its answer. -/
theorem halves_partitionPoint (test : β → Bool) (items : List β) :
    Relation.ReflTransGen (Halves test items) (0, items.length)
      (partitionPoint test items, partitionPoint test items) :=
  halves_partitionPointFrom _ _ _ (Nat.zero_le _) (Nat.le_refl _) (Nat.sub_le _ _)

/-- Where a list is cut, it is cut behind as many items as satisfy the test. -/
theorem Cut.countP_eq (h : Cut test items place) : items.countP test = place := by
  have hbefore : (items.take place).countP test = (items.take place).length :=
    List.countP_eq_length.mpr fun _ => h.of_mem_take
  have hbehind : (items.drop place).countP test = 0 :=
    List.countP_eq_zero.mpr fun _ => h.of_mem_drop
  rw [← List.take_append_drop place items, List.countP_append, hbefore, hbehind,
    List.length_take, Nat.min_eq_left h.le, Nat.add_zero]

end LeadSheet.Sorting
