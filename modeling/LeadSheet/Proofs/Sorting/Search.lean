import LeadSheet.Sorting.Search

/-!
# The searches find the place

Both searches are meant for a list whose first items satisfy a test and whose others do not. `Cut`
says that of a place. On such a list `partitionPoint` and `gallop` find it, whatever items they
look at on the way; so it makes no difference whether a search is mirrored.
-/

namespace LeadSheet.Sorting

variable {β : Type} {test : β → Bool} {items : List β} {place : Nat}

/-- The items before a place satisfy a test, and those from there on do not. -/
structure Cut (test : β → Bool) (items : List β) (place : Nat) : Prop where
  le : place ≤ items.length
  iff : ∀ {i : Nat} {item : β}, items[i]? = some item → (test item = true ↔ i < place)

/-! ## Where a list is cut -/

theorem cut_nil (test : β → Bool) : Cut test [] 0 := ⟨Nat.le_refl 0, by simp⟩

/-- If a test that fails goes on to fail, the list is cut behind the items that satisfy it at its
start. -/
theorem cut_takeWhile (h : items.Pairwise fun a b => test b = true → test a = true) :
    Cut test items (items.takeWhile test).length := by
  induction items with
  | nil => exact cut_nil test
  | cons first rest ih =>
    have hrest := ih (List.Pairwise.of_cons h)
    by_cases hfirst : test first = true
    · rw [List.takeWhile_cons_of_pos hfirst, List.length_cons]
      refine ⟨Nat.succ_le_succ hrest.le, fun {i item} hitem => ?_⟩
      cases i with
      | zero =>
          have : first = item := by simpa using hitem
          subst this
          simp [hfirst]
      | succ i => rw [hrest.iff (by simpa using hitem), Nat.succ_lt_succ_iff]
    · rw [List.takeWhile_cons_of_neg hfirst, List.length_nil]
      refine ⟨Nat.zero_le _, fun {i item} hitem => ?_⟩
      -- what comes behind an item that fails the test fails it too
      have hfails : ¬ test item = true := by
        rcases List.mem_cons.mp (List.mem_of_getElem? hitem) with rfl | hmem
        · exact hfirst
        · exact fun htest => hfirst (List.rel_of_pairwise_cons h hmem htest)
      simp [hfails]

theorem take_length_takeWhile (test : β → Bool) (items : List β) :
    items.take (items.takeWhile test).length = items.takeWhile test :=
  (List.prefix_iff_eq_take.mp (List.takeWhile_prefix test)).symm

theorem drop_length_takeWhile (test : β → Bool) (items : List β) :
    items.drop (items.takeWhile test).length = items.dropWhile test := by
  have h := List.take_append_drop (items.takeWhile test).length items
  rw [take_length_takeWhile] at h
  exact List.append_cancel_left (h.trans (List.takeWhile_append_dropWhile ..).symm)

theorem Cut.of_mem_take (h : Cut test items place) {x : β} (hx : x ∈ items.take place) :
    test x = true := by
  obtain ⟨i, hi⟩ := List.mem_iff_getElem?.mp hx
  rw [List.getElem?_take] at hi
  split at hi
  · rename_i hlt
    exact (h.iff hi).mpr hlt
  · exact absurd hi (by simp)

theorem Cut.of_mem_drop (h : Cut test items place) {x : β} (hx : x ∈ items.drop place) :
    ¬test x = true := by
  obtain ⟨i, hi⟩ := List.mem_iff_getElem?.mp hx
  rw [List.getElem?_drop] at hi
  exact fun htest => absurd ((h.iff hi).mp htest) (by omega)

/-! ## The searches -/

/-- Halving keeps the place between its two ends. -/
theorem partitionPointFrom_eq (h : Cut test items place) (mirrored : Bool) :
    ∀ (steps low high : Nat), low ≤ place → place ≤ high → high ≤ items.length →
      high ≤ low + steps → partitionPointFrom mirrored test items steps low high = place
  | 0, low, high, hlow, hhigh, _, hsteps => by
      rw [partitionPointFrom]
      omega
  | steps + 1, low, high, hlow, hhigh, hlength, hsteps => by
      rw [partitionPointFrom]
      split
      · rename_i hlt
        -- either way of halving an odd number lands between the two ends
        have hmiddle : ∃ middle, (low + high - if mirrored = true then 1 else 0) / 2 = middle
            ∧ low ≤ middle ∧ middle < high := by
          refine ⟨_, rfl, ?_, ?_⟩ <;> split <;> omega
        obtain ⟨middle, heq, hle, hlt'⟩ := hmiddle
        rw [heq]
        have hinside : middle < items.length := by omega
        have hitem : items[middle]? = some items[middle] := List.getElem?_eq_getElem hinside
        dsimp only
        rw [hitem]
        dsimp only
        split
        · rename_i htest
          have := (h.iff hitem).mp htest
          exact partitionPointFrom_eq h mirrored steps _ _ (by omega) hhigh hlength (by omega)
        · rename_i htest
          have := mt (h.iff hitem).mpr htest
          exact partitionPointFrom_eq h mirrored steps _ _ hlow (by omega) (by omega) (by omega)
      · omega

theorem partitionPoint_eq (h : Cut test items place) : partitionPoint test items = place :=
  partitionPointFrom_eq h false _ _ _ (Nat.zero_le _) h.le (Nat.le_refl _) (by omega)

/-- The strides stop with the place between the last two items they saw. -/
theorem stride_brackets (h : Cut test items place) :
    ∀ (steps last next : Nat), last < place → last < next → items.length ≤ last + steps →
      (stride test items steps last next).1 < place
        ∧ place ≤ (stride test items steps last next).2
        ∧ (stride test items steps last next).2 ≤ items.length
  | 0, last, next, hlast, _, hsteps => absurd h.le (by omega)
  | steps + 1, last, next, hlast, hnext, hsteps => by
      rw [stride]
      split
      · exact ⟨hlast, h.le, Nat.le_refl _⟩
      · rename_i item hitem
        have hlt : next < items.length := (List.getElem?_eq_some_iff.mp hitem).1
        split
        · rename_i htest
          exact stride_brackets h steps next (2 * next + 1) ((h.iff hitem).mp htest) (by omega)
            (by omega)
        · rename_i htest
          have := mt (h.iff hitem).mpr htest
          exact ⟨hlast, by dsimp only; omega, by dsimp only; omega⟩

theorem gallop_eq (h : Cut test items place) (mirrored : Bool) :
    gallop mirrored test items = place := by
  unfold gallop
  split
  · have := h.le
    rw [List.length_nil] at this
    omega
  · rename_i first rest
    have hfirst : test first = true ↔ 0 < place := h.iff (i := 0) rfl
    split
    · rename_i htest
      obtain ⟨hlast, hnext, hle⟩ := stride_brackets h (first :: rest).length 0 1 (hfirst.mp htest)
        Nat.zero_lt_one (by omega)
      exact partitionPointFrom_eq h mirrored _ _ _ hlast hnext hle
        (Nat.le_trans hle (Nat.le_add_left _ _))
    · rename_i htest
      have := mt hfirst.mpr htest
      omega

/-- On a list that is cut at all, galloping counts the items at its start. -/
theorem gallop_eq_takeWhile (mirrored : Bool)
    (h : items.Pairwise fun a b => test b = true → test a = true) :
    gallop mirrored test items = (items.takeWhile test).length :=
  gallop_eq (cut_takeWhile h) mirrored

/-- On such a list galloping cuts it. -/
theorem cut_gallop (test : β → Bool) (mirrored : Bool)
    (h : items.Pairwise fun a b => test b = true → test a = true) :
    Cut test items (gallop mirrored test items) := by
  rw [gallop_eq_takeWhile mirrored h]
  exact cut_takeWhile h

theorem cut_partitionPoint (test : β → Bool)
    (h : items.Pairwise fun a b => test b = true → test a = true) :
    Cut test items (partitionPoint test items) := by
  rw [partitionPoint_eq (cut_takeWhile h)]
  exact cut_takeWhile h

end LeadSheet.Sorting
