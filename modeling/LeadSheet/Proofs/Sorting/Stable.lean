import Mathlib.Data.List.Perm.Basic
import Mathlib.Order.Lattice
import Mathlib.Order.OrderDual

/-!
# What a stable sort owes

Items are ordered by a key. A list is a **stable sort** of another one when

* its keys rise, and
* of every key it holds the same items as the other list, in the same order.

The second half (`SameTies`) is the useful one. It is an equivalence, it goes through `++`, and it
says both that nothing was lost and that ties kept their order. So each step of a sorting algorithm
is checked by itself: it may put lists side by side, and it may swap items of different keys, and
nothing else.
-/

namespace LeadSheet.Sorting

variable {β κ : Type} [LinearOrder κ]

/-- Two lists hold the same items of each key, in the same order. -/
def SameTies (key : β → κ) (l s : List β) : Prop :=
  ∀ k, l.filter (fun x => decide (key x = k)) = s.filter (fun x => decide (key x = k))

/-- A list whose keys never fall. -/
def Rising (key : β → κ) (l : List β) : Prop := l.Pairwise fun a b => key a ≤ key b

/-- `s` holds the items of `l` in rising order, and those of one key in the order of `l`. -/
structure StableSort (key : β → κ) (l s : List β) : Prop where
  /-- The keys rise. -/
  rising : Rising key s
  /-- Nothing is lost, and ties keep their order. -/
  ties : SameTies key l s

variable {key : β → κ} {l l' s s' : List β}

/-! ## Ties -/

namespace SameTies

theorem refl (key : β → κ) (l : List β) : SameTies key l l := fun _ => rfl

theorem trans (h : SameTies key l s) (h' : SameTies key s s') : SameTies key l s' :=
  fun k => (h k).trans (h' k)

theorem append (h : SameTies key l s) (h' : SameTies key l' s') :
    SameTies key (l ++ l') (s ++ s') := by
  intro k
  rw [List.filter_append, List.filter_append, h k, h' k]

/-- Every item has some key, so nothing can be lost. -/
theorem perm (h : SameTies key l s) : l.Perm s := by
  classical
  refine List.perm_iff_count.mpr fun a => ?_
  have hk : decide (key a = key a) = true := by simp
  rw [← List.count_filter (l := l) (p := fun x => decide (key x = key a)) hk, h (key a),
    List.count_filter (l := s) (p := fun x => decide (key x = key a)) hk]

theorem reverse (h : SameTies key l s) : SameTies key l.reverse s.reverse := by
  intro k
  rw [List.filter_reverse, List.filter_reverse, h k]

end SameTies

theorem StableSort.perm (h : StableSort key l s) : l.Perm s := h.ties.perm

theorem StableSort.mem_iff (h : StableSort key l s) {x : β} : x ∈ s ↔ x ∈ l := h.perm.symm.mem_iff

theorem Rising.sublist (h : Rising key l) (hs : s.Sublist l) : Rising key s :=
  List.Pairwise.sublist hs h

/-- What rises is its own stable sort. -/
theorem Rising.stableSort (h : Rising key l) : StableSort key l l := ⟨h, SameTies.refl key l⟩

theorem StableSort.of_ties (h : StableSort key l s) (h' : SameTies key l' l) :
    StableSort key l' s :=
  ⟨h.rising, h'.trans h.ties⟩

/-! ## Turning a list round -/

/-- The keys in the opposite order. -/
def backwards (key : β → κ) (x : β) : κᵒᵈ := OrderDual.toDual (key x)

theorem Rising.backwards (h : Rising key l) : Rising (backwards key) l.reverse := by
  unfold Rising at h ⊢
  rw [List.pairwise_reverse]
  exact h.imp fun hab => OrderDual.toDual_le_toDual.mpr hab

/-- A list sorted the other way is sorted when both sides are turned round. -/
theorem StableSort.turn (h : StableSort (backwards key) l s) :
    StableSort key l.reverse s.reverse where
  rising := by
    unfold Rising
    rw [List.pairwise_reverse]
    exact h.rising.imp fun hab => OrderDual.toDual_le_toDual.mp hab
  ties := SameTies.reverse fun k => h.ties (OrderDual.toDual k)

/-- A list that falls strictly has no ties, so that it may be turned round. -/
theorem sameTies_reverse_of_falling (h : l.Pairwise fun a b => key b < key a) :
    SameTies key l l.reverse := by
  intro k
  rw [List.filter_reverse]
  -- two items of one key would have to fall strictly
  have hshort : (l.filter fun x => decide (key x = k)).Pairwise fun _ _ => False := by
    refine (h.filter _).imp_of_mem fun ha hb hab => ?_
    have hka := of_decide_eq_true (List.mem_filter.mp ha).2
    have hkb := of_decide_eq_true (List.mem_filter.mp hb).2
    exact absurd hab (by rw [hka, hkb]; exact lt_irrefl k)
  match l.filter fun x => decide (key x = k), hshort with
  | [], _ => rfl
  | [_], _ => rfl
  | _ :: _ :: _, hbad => exact (List.rel_of_pairwise_cons hbad (List.mem_cons_self ..)).elim

/-! ## One after the other -/

theorem Rising.append (h : Rising key l) (h' : Rising key l')
    (hle : ∀ a ∈ l, ∀ b ∈ l', key a ≤ key b) : Rising key (l ++ l') :=
  List.pairwise_append.mpr ⟨h, h', hle⟩

theorem Rising.le_getLast? (h : Rising key l) {last x : β} (hlast : last ∈ l.getLast?)
    (hx : x ∈ l) : key x ≤ key last := by
  obtain ⟨before, rfl⟩ := List.getLast?_eq_some_iff.mp hlast
  rcases List.mem_append.mp hx with hx | hx
  · exact (List.pairwise_append.mp h).2.2 x hx last (List.mem_singleton_self last)
  · rw [List.mem_singleton.mp hx]

/-- A sorted list between what is lower and what is higher. -/
theorem StableSort.between (h : StableSort key l s) {low high : List β} (hlow : Rising key low)
    (hhigh : Rising key high) (hbelow : ∀ a ∈ low, ∀ b ∈ l, key a ≤ key b)
    (habove : ∀ a ∈ l, ∀ b ∈ high, key a ≤ key b) (hl : l ≠ []) :
    StableSort key (low ++ (l ++ high)) (low ++ s ++ high) := by
  obtain ⟨middle, hmiddle⟩ := List.exists_mem_of_ne_nil l hl
  refine ⟨?_, ?_⟩
  · refine Rising.append (hlow.append h.rising fun a ha b hb => hbelow a ha b (h.mem_iff.mp hb))
      hhigh fun a ha b hb => ?_
    rcases List.mem_append.mp ha with ha | ha
    · exact (hbelow a ha middle hmiddle).trans (habove middle hmiddle b hb)
    · exact habove a (h.mem_iff.mp ha) b hb
  · rw [List.append_assoc]
    exact (SameTies.refl key low).append (h.ties.append (SameTies.refl key high))

/-- A beginning of a stable sort holds all items below some key, and of the items of that key a
beginning of what there was. -/
theorem StableSort.exists_perm_of_begun (h : StableSort key l s) {begun : List β}
    (hbegun : begun <+: s) (hne : begun ≠ []) :
    ∃ k ties, ties <+: l.filter (fun x => decide (key x = k)) ∧
      begun.Perm (l.filter (fun x => decide (key x < k)) ++ ties) := by
  obtain ⟨rest, rfl⟩ := hbegun
  obtain ⟨hrising, -, hbehind⟩ := List.pairwise_append.mp h.rising
  have hlast := List.getLast_mem hne
  generalize hk : key (begun.getLast hne) = k
  have hle : ∀ x ∈ begun, key x ≤ k := fun x hx =>
    hk ▸ Rising.le_getLast? hrising (List.getLast?_eq_getLast_of_ne_nil hne) hx
  have hge : ∀ x ∈ rest, k ≤ key x := fun x hx => hk ▸ hbehind _ hlast x hx
  refine ⟨k, begun.filter fun x => decide (key x = k), ?_, ?_⟩
  · rw [h.ties k, List.filter_append]
    exact List.prefix_append _ _
  · have hbelow : (l.filter fun x => decide (key x < k)).Perm
        (begun.filter fun x => decide (key x < k)) := by
      have hnone : rest.filter (fun x => decide (key x < k)) = [] := by
        rw [List.filter_eq_nil_iff]
        intro x hx
        simpa using hge x hx
      have hperm := h.perm.filter fun x => decide (key x < k)
      rwa [List.filter_append, hnone, List.append_nil] at hperm
    -- what is not below the last key has that key
    have htied : begun.filter (fun x => !decide (key x < k))
        = begun.filter fun x => decide (key x = k) := by
      refine List.filter_congr fun x hx => ?_
      have := hle x hx
      rw [← decide_not, decide_eq_decide, not_lt]
      exact ⟨this.antisymm, fun heq => heq.ge⟩
    refine (List.filter_append_perm (fun x => decide (key x < k)) begun).symm.trans ?_
    rw [htied]
    exact hbelow.symm.append_right _

/-- Among items behind a key, none has that key. -/
theorem filter_eq_nil_of_lt {k : κ} (h : ∀ x ∈ l, k < key x) :
    l.filter (fun x => decide (key x = k)) = [] := by
  rw [List.filter_eq_nil_iff]
  intro x hx
  simpa using (h x hx).ne'

/-- The merge of two rising lists that takes from the second one only what is strictly less. -/
theorem stableSort_merge {le : β → β → Bool} :
    ∀ {xs ys : List β}, (∀ x ∈ xs, ∀ y ∈ ys, le x y = decide (key x ≤ key y)) →
      Rising key xs → Rising key ys → StableSort key (xs ++ ys) (xs.merge ys le)
  | [], ys, _, _, hys => by
      simpa using hys.stableSort
  | x :: xs, [], _, hxs, _ => by
      simpa using hxs.stableSort
  | x :: xs, y :: ys, hle, hxs, hys => by
      have hhead := hle x (List.mem_cons_self ..) y (List.mem_cons_self ..)
      rw [List.cons_merge_cons, hhead]
      by_cases hxy : key x ≤ key y
      · rw [if_pos (by simpa using hxy)]
        have ih := stableSort_merge (fun a ha b hb => hle a (List.mem_cons_of_mem x ha) b hb)
          (List.Pairwise.of_cons hxs) hys
        refine ⟨List.pairwise_cons.mpr ⟨fun z hz => ?_, ih.rising⟩,
          (SameTies.refl key [x]).append ih.ties⟩
        rcases List.mem_append.mp (ih.mem_iff.mp hz) with hz | hz
        · exact List.rel_of_pairwise_cons hxs hz
        · rcases List.mem_cons.mp hz with rfl | hz
          · exact hxy
          · exact hxy.trans (List.rel_of_pairwise_cons hys hz)
      · rw [if_neg (by simpa using hxy)]
        have hyx : key y < key x := not_le.mp hxy
        have hbehind : ∀ z ∈ x :: xs, key y < key z := by
          intro z hz
          rcases List.mem_cons.mp hz with rfl | hz
          · exact hyx
          · exact hyx.trans_le (List.rel_of_pairwise_cons hxs hz)
        have ih := stableSort_merge (fun a ha b hb => hle a ha b (List.mem_cons_of_mem y hb))
          hxs (List.Pairwise.of_cons hys)
        refine ⟨List.pairwise_cons.mpr ⟨fun z hz => ?_, ih.rising⟩, fun k => ?_⟩
        · rcases List.mem_append.mp (ih.mem_iff.mp hz) with hz | hz
          · exact (hbehind z hz).le
          · exact List.rel_of_pairwise_cons hys hz
        · -- `y` passes the whole left list, which holds no item of its key
          have hties := ih.ties k
          rw [List.filter_append] at hties
          rw [List.filter_append, List.filter_cons (x := y), List.filter_cons (x := y), ← hties]
          by_cases hk : key y = k
          · subst hk
            rw [filter_eq_nil_of_lt hbehind, List.nil_append, List.nil_append]
          · rw [if_neg (by simpa using hk), if_neg (by simpa using hk)]
  termination_by xs ys => xs.length + ys.length

/-! ## Which item comes first -/

/-- Items of one list stand in one order or in the other. -/
theorem sublist_or_sublist {a b : β} (ha : a ∈ l) (hb : b ∈ l) (hne : a ≠ b) :
    [a, b].Sublist l ∨ [b, a].Sublist l := by
  induction l with
  | nil => cases ha
  | cons x rest ih =>
    rcases List.mem_cons.mp ha with rfl | ha' <;> rcases List.mem_cons.mp hb with rfl | hb'
    · exact absurd rfl hne
    · exact .inl ((List.singleton_sublist.mpr hb').cons_cons a)
    · exact .inr ((List.singleton_sublist.mpr ha').cons_cons b)
    · exact (ih ha' hb').imp (·.cons x) (·.cons x)

/-- Where any two items stand in an order that cannot be turned round, that order says which of two
items comes first. -/
theorem pair_sublist_iff {R : β → β → Prop} (h : l.Pairwise R) (hasymm : ∀ a b, R a b → ¬ R b a)
    {a b : β} (ha : a ∈ l) (hb : b ∈ l) (hne : a ≠ b) : [a, b].Sublist l ↔ R a b := by
  rw [List.pairwise_iff_forall_sublist] at h
  refine ⟨fun hab => h hab, fun hab => ?_⟩
  exact (sublist_or_sublist ha hb hne).resolve_right fun hba => hasymm a b hab (h hba)

/-- A stable sort orders by key, and where keys are equal as before. -/
theorem StableSort.pairwise {R : β → β → Prop} (h : StableSort key l s) (hl : l.Pairwise R) :
    s.Pairwise fun a b => key a < key b ∨ key a = key b ∧ R a b := by
  rw [List.pairwise_iff_forall_sublist]
  intro a b hab
  have hle : key a ≤ key b := List.pairwise_iff_forall_sublist.mp h.rising hab
  refine hle.lt_or_eq.imp_right fun heq => ⟨heq, ?_⟩
  -- both are among the items of one key, which are those of the list that was sorted
  have hties : [a, b].Sublist (l.filter fun x => decide (key x = key b)) := by
    rw [h.ties (key b)]
    simpa [heq] using hab.filter fun x => decide (key x = key b)
  exact List.pairwise_iff_forall_sublist.mp (hl.filter _) hties

/-- A list has one stable sort. -/
theorem StableSort.unique {s s' : List β} (h : StableSort key l s) (h' : StableSort key l s') :
    s = s' := by
  have hties : SameTies key s s' := fun k => (h.ties k).symm.trans (h'.ties k)
  obtain ⟨hrising, -⟩ := h
  obtain ⟨hrising', -⟩ := h'
  induction s generalizing s' with
  | nil => exact hties.perm.nil_eq
  | cons a rest ih =>
    cases s' with
    | nil => exact absurd hties.perm.eq_nil (List.cons_ne_nil a rest)
    | cons b rest' =>
      have hkey : key a = key b := by
        rcases List.mem_cons.mp (hties.perm.mem_iff.mpr (List.mem_cons_self ..)) with rfl | hb
        · rfl
        · rcases List.mem_cons.mp (hties.perm.mem_iff.mp (List.mem_cons_self ..)) with rfl | ha
          · rfl
          · exact le_antisymm (List.rel_of_pairwise_cons hrising hb)
              (List.rel_of_pairwise_cons hrising' ha)
      have hhead := hties (key a)
      simp only [List.filter_cons, hkey, decide_true, if_true, List.cons.injEq] at hhead
      obtain ⟨rfl, -⟩ := hhead
      refine congrArg (a :: ·) (ih (fun k => ?_) hrising.of_cons hrising'.of_cons)
      have hk := hties k
      by_cases hak : key a = k
      · simpa [hak] using hk
      · simpa [hak] using hk

/-- Items that are sorted with more than the key reads, and then without it. -/
theorem StableSort.map {γ : Type} {f : γ → β} {items sorted : List γ}
    (h : StableSort (fun x => key (f x)) items sorted) :
    StableSort key (items.map f) (sorted.map f) where
  rising := List.pairwise_map.mpr h.rising
  ties k := by
    rw [List.filter_map, List.filter_map]
    exact congrArg (List.map f) (h.ties k)

end LeadSheet.Sorting
