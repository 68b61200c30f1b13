import LeadSheet.Proofs.Sorting.Merge
import LeadSheet.Sorting.Runs
import Mathlib.Data.List.Pairwise

/-!
# Sorting by runs is stable

The list is cut into runs (`runsFrom`), each of which is brought into order by itself, and the runs
that wait are merged with their neighbours. At every moment the waiting runs, one behind the other,
hold the ties of what was read so far, and each of them rises: `Waiting.Holds`. Which runs are
merged when makes no difference to that.

The headline is `sort_stable`. It asks that the comparison goes by keys among the items that are
sorted, and nothing about other items, so that it holds of comparisons that break down elsewhere.
-/

namespace LeadSheet.Sorting

variable {β κ : Type} [LinearOrder κ] {key : β → κ} {before : β → β → Bool} {items : List β}

/-! ## Putting items in -/

/-- An item passes the items of greater keys. -/
theorem sameTies_pass {item : β} (h : ∀ x ∈ items, key item < key x) :
    SameTies key (items ++ [item]) (item :: items) := by
  intro k
  simp only [List.filter_append, List.filter_cons, List.filter_nil]
  by_cases hk : key item = k
  · subst hk
    rw [filter_eq_nil_of_lt h]
    simp
  · simp [hk]

theorem insert_stable {item : β} (hby : ComparesBy key before (items ++ [item]))
    (h : Rising key items) : StableSort key (items ++ [item]) (insert before items item) := by
  have hbyItem : ∀ x ∈ items, before item x = decide (key item < key x) := fun x hx =>
    hby item (by simp) x (by simp [hx])
  have hplace := cut_partitionPoint (fun other => !before item other)
    (h.imp_of_mem fun {a b} ha hb hab => by
      rw [hbyItem a ha, hbyItem b hb]
      simpa using hab.trans)
  unfold insert
  dsimp only
  generalize partitionPoint (fun other => !before item other) items = place at hplace
  have hstay : ∀ x ∈ items.take place, key x ≤ key item := fun x hx => by
    simpa [hbyItem x (List.mem_of_mem_take hx)] using hplace.of_mem_take hx
  have hmove : ∀ x ∈ items.drop place, key item < key x := fun x hx => by
    simpa [hbyItem x (List.mem_of_mem_drop hx)] using hplace.of_mem_drop hx
  -- the item goes between those that stay and those that move, and passes the latter
  refine ⟨Rising.append (h.sublist (List.take_sublist ..)) ?_ ?_, ?_⟩
  · exact List.pairwise_cons.mpr
      ⟨fun x hx => (hmove x hx).le, h.sublist (List.drop_sublist ..)⟩
  · intro x hx y hy
    rcases List.mem_cons.mp hy with rfl | hy
    · exact hstay x hx
    · exact (hstay x hx).trans (hmove y hy).le
  · conv => lhs; rw [← List.take_append_drop place items, List.append_assoc]
    exact (SameTies.refl key _).append (sameTies_pass hmove)

theorem foldl_insert_stable {run : List β} (hby : ComparesBy key before (run ++ items))
    (h : Rising key run) : StableSort key (run ++ items) (items.foldl (insert before) run) := by
  induction items generalizing run with
  | nil => simpa using h.stableSort
  | cons item items ih =>
    have hitem : StableSort key (run ++ [item]) (insert before run item) :=
      insert_stable (hby.subset (by
        rw [List.append_cons run item items]
        exact List.subset_append_left ..)) h
    have hsame : SameTies key (run ++ item :: items) (insert before run item ++ items) := by
      rw [List.append_cons]
      exact hitem.ties.append (SameTies.refl key items)
    exact (ih (hby.subset hsame.perm.symm.subset) hitem.rising).of_ties hsame

/-! ## Runs -/

theorem runFrom_append (follows : β → β → Bool) (last : β) (items : List β) :
    (runFrom follows last items).1 ++ (runFrom follows last items).2 = items := by
  induction items generalizing last with
  | nil => rfl
  | cons item rest ih =>
    rw [runFrom]
    split
    · exact congrArg (item :: ·) (ih item)
    · rfl

theorem runFrom_pairwise {R : β → β → Prop} [IsTrans β R] {follows : β → β → Bool} {last : β}
    (h : ∀ a ∈ last :: items, ∀ b ∈ last :: items, follows a b = true → R a b) :
    (last :: (runFrom follows last items).1).Pairwise R := by
  induction items generalizing last with
  | nil => exact List.pairwise_singleton R last
  | cons item rest ih =>
    rw [runFrom]
    split
    · rename_i hfollows
      have hhead : R last item := h last (by simp) item (by simp) hfollows
      exact .cons_cons_of_trans hhead <| ih fun a ha b hb =>
        h a (List.mem_cons_of_mem last ha) b (List.mem_cons_of_mem last hb)
    · exact List.pairwise_singleton R last

/-- The leading run is a stable sort of the items it takes away, of which there is one at least. -/
theorem leadingRun_stable (hby : ComparesBy key before items) (hne : items ≠ []) :
    ∃ front, front ≠ [] ∧ front ++ (leadingRun before items).2 = items
      ∧ StableSort key front (leadingRun before items).1 := by
  match items with
  | [] => exact absurd rfl hne
  | [item] => exact ⟨[item], by simp, rfl, Rising.stableSort (List.pairwise_singleton _ item)⟩
  | first :: second :: rest =>
    have hfirst : before second first = decide (key second < key first) :=
      hby second (by simp) first (by simp)
    have hby' : ComparesBy key before (second :: rest) := hby.subset (List.subset_cons_self ..)
    have hsplit (follows : β → β → Bool) :
        first :: second :: (runFrom follows second rest).1 ++ (runFrom follows second rest).2
          = first :: second :: rest :=
      congrArg (first :: second :: ·) (runFrom_append follows second rest)
    rw [leadingRun, hfirst]
    by_cases hlt : key second < key first
    · -- the run falls, and strictly so, so that it has no ties to lose when it is turned round
      have : IsTrans β fun a b => key b < key a := ⟨fun _ _ _ hab hbc => hbc.trans hab⟩
      rw [if_pos (by simpa using hlt)]
      have hfall : (first :: second :: (runFrom (fun last next => before next last) second
          rest).1).Pairwise fun a b => key b < key a :=
        .cons_cons_of_trans hlt <| runFrom_pairwise fun a ha b hb hbefore => by
          simpa [hby' b hb a ha] using hbefore
      refine ⟨_, List.cons_ne_nil _ _, hsplit fun last next => before next last, ?_,
        sameTies_reverse_of_falling hfall⟩
      unfold Rising
      rw [List.pairwise_reverse]
      exact hfall.imp le_of_lt
    · -- the run rises, and stays as it is
      have : IsTrans β fun a b => key a ≤ key b := ⟨fun _ _ _ hab hbc => hab.trans hbc⟩
      rw [if_neg (by simpa using hlt)]
      have hrise : (first :: second :: (runFrom (fun last next => !before next last) second
          rest).1).Pairwise fun a b => key a ≤ key b :=
        .cons_cons_of_trans (not_lt.mp hlt) <| runFrom_pairwise fun a ha b hb hbefore => by
          simpa [hby' b hb a ha] using hbefore
      exact ⟨_, List.cons_ne_nil _ _, hsplit fun last next => !before next last,
        Rising.stableSort hrise⟩

/-- Each run rises, and the runs hold the ties of the list. -/
theorem runsFrom_ties (least : Nat) : ∀ (count : Nat) {items : List β},
    ComparesBy key before items → items.length ≤ count →
    (∀ run ∈ runsFrom before count least items, Rising key run)
      ∧ SameTies key items (runsFrom before count least items).flatten
  | 0, items, _, hcount => by
      have : items = [] := List.length_eq_zero_iff.mp (by omega)
      subst this
      exact ⟨by simp [runsFrom], SameTies.refl key []⟩
  | count + 1, [], _, _ => ⟨by simp [runsFrom], SameTies.refl key []⟩
  | count + 1, item :: rest, hby, hcount => by
      obtain ⟨front, hfront, happend, hstable⟩ := leadingRun_stable hby (by simp)
      unfold runsFrom
      dsimp only
      generalize leadingRun before (item :: rest) = lead at happend hstable
      generalize hmore : least - lead.1.length = more
      -- the run that is filled up takes away `front` and `more` items
      have hsplit : (front ++ lead.2.take more) ++ lead.2.drop more = item :: rest := by
        rw [List.append_assoc, List.take_append_drop, happend]
      have hsame : SameTies key (front ++ lead.2.take more) (lead.1 ++ lead.2.take more) :=
        hstable.ties.append (SameTies.refl key _)
      have htaken : front ++ lead.2.take more ⊆ item :: rest := by
        rw [← hsplit]
        exact List.subset_append_left ..
      have hrun := (foldl_insert_stable (hby.subset fun x hx =>
        htaken (hsame.perm.symm.subset hx)) hstable.rising).of_ties hsame
      have hbyRest : ComparesBy key before (lead.2.drop more) := hby.subset (by
        rw [← hsplit]
        exact List.subset_append_right ..)
      have hothers := runsFrom_ties least count hbyRest (by
          have hlength := congrArg List.length hsplit
          have := List.length_pos_iff.mpr hfront
          simp only [List.length_append, List.length_cons] at hlength hcount
          omega)
      refine ⟨fun run hmem => ?_, ?_⟩
      · rcases List.mem_cons.mp hmem with rfl | hmem
        · exact hrun.rising
        · exact hothers.1 run hmem
      · rw [List.flatten_cons]
        conv => lhs; rw [← hsplit]
        exact hrun.ties.append hothers.2

/-! ## Merging runs -/

namespace Waiting

/-- The waiting runs rise, and hold the ties of the items. -/
structure Holds (key : β → κ) (items : List β) (w : Waiting β) : Prop where
  rising : ∀ run ∈ w.runs, Rising key run
  ties : SameTies key items w.runs.reverse.flatten

theorem mergeLast_holds {w : Waiting β} (hby : ComparesBy key before items)
    (h : Holds key items w) : Holds key items (w.mergeLast before) := by
  unfold mergeLast
  split
  · rename_i last previous earlier hruns
    obtain ⟨hrising, hties⟩ := h
    rw [hruns] at hrising hties
    have hwhole : (last :: previous :: earlier).reverse.flatten
        = earlier.reverse.flatten ++ (previous ++ last) := by simp
    rw [hwhole] at hties
    have hmerge := mergeRuns_stable w.patience
      (hby.subset (List.Subset.trans (List.subset_append_right ..) hties.perm.symm.subset))
      (hrising previous (by simp)) (hrising last (by simp))
    refine ⟨fun run hrun => ?_, ?_⟩
    · rcases List.mem_cons.mp hrun with rfl | hrun
      · exact hmerge.rising
      · exact hrising run (by simp [hrun])
    · dsimp only
      rw [List.reverse_cons, List.flatten_append, List.flatten_singleton]
      exact hties.trans ((SameTies.refl key _).append hmerge.ties)
  · exact h

theorem mergeBeforeLast_holds {w : Waiting β} (hby : ComparesBy key before items)
    (h : Holds key items w) : Holds key items (w.mergeBeforeLast before) := by
  unfold mergeBeforeLast
  split
  · rename_i last earlier hruns
    obtain ⟨hrising, hties⟩ := h
    rw [hruns] at hrising hties
    rw [List.reverse_cons, List.flatten_append, List.flatten_singleton] at hties
    have hearlier : Holds key earlier.reverse.flatten (mergeLast before ⟨earlier, w.patience⟩) :=
      mergeLast_holds
        (hby.subset (List.Subset.trans (List.subset_append_left ..) hties.perm.symm.subset))
        ⟨fun run hrun => hrising run (List.mem_cons_of_mem last hrun), SameTies.refl key _⟩
    refine ⟨fun run hrun => ?_, ?_⟩
    · rcases List.mem_cons.mp hrun with rfl | hrun
      · exact hrising run (List.mem_cons_self ..)
      · exact hearlier.rising run hrun
    · dsimp only
      rw [List.reverse_cons, List.flatten_append, List.flatten_singleton]
      exact hties.trans (hearlier.ties.append (SameTies.refl key last))
  · exact h

theorem mergeNext_holds {w : Waiting β} (hby : ComparesBy key before items)
    (h : Holds key items w) : Holds key items (w.mergeNext before) := by
  unfold mergeNext
  split
  · split
    · exact mergeBeforeLast_holds hby h
    · exact mergeLast_holds hby h
  · exact mergeLast_holds hby h

theorem settle_holds (hby : ComparesBy key before items) : ∀ (merges : Nat) {w : Waiting β},
    Holds key items w → Holds key items (settle before merges w)
  | 0, _, h => h
  | merges + 1, w, h => by
      rw [settle]
      split
      · exact settle_holds hby merges (mergeNext_holds hby h)
      · split
        · split
          · exact settle_holds hby merges (mergeLast_holds hby h)
          · exact h
        · exact h

theorem push_holds {w : Waiting β} {run : List β} (hby : ComparesBy key before (items ++ run))
    (h : Holds key items w) (hrun : Rising key run) :
    Holds key (items ++ run) (w.push before run) := by
  refine settle_holds hby _ ⟨fun other hother => ?_, ?_⟩
  · rcases List.mem_cons.mp hother with rfl | hother
    · exact hrun
    · exact h.rising other hother
  · dsimp only
    rw [List.reverse_cons, List.flatten_append, List.flatten_singleton]
    exact h.ties.append (SameTies.refl key run)

theorem foldl_push_holds {runs : List (List β)} {w : Waiting β}
    (hby : ComparesBy key before (items ++ runs.flatten)) (h : Holds key items w)
    (hruns : ∀ run ∈ runs, Rising key run) :
    Holds key (items ++ runs.flatten) (runs.foldl (push before) w) := by
  induction runs generalizing items w with
  | nil => simpa using h
  | cons run runs ih =>
    rw [List.flatten_cons, ← List.append_assoc] at hby ⊢
    exact ih hby (push_holds (hby.subset (List.subset_append_left ..)) h
      (hruns run (List.mem_cons_self ..))) fun other hother =>
        hruns other (List.mem_cons_of_mem run hother)

/-- Every merge leaves one run less. -/
theorem mergeNext_length (before : β → β → Bool) {w : Waiting β} (h : 2 ≤ w.runs.length) :
    (w.mergeNext before).runs.length + 1 = w.runs.length := by
  match hw : w.runs with
  | [] => rw [hw] at h; simp at h
  | [_] => rw [hw] at h; simp at h
  | [_, _] => simp [mergeNext, mergeLast, hw]
  | _ :: _ :: _ :: _ =>
    simp only [mergeNext, hw]
    split
    · simp [mergeBeforeLast, mergeLast, hw]
    · simp [mergeLast, hw]

theorem finish_stable (hby : ComparesBy key before items) : ∀ (merges : Nat) {w : Waiting β},
    Holds key items w → w.runs.length ≤ merges → StableSort key items (finish before merges w)
  | 0, w, h, hlength => by
      have hruns : w.runs = [] := List.length_eq_zero_iff.mp (by omega)
      have hties := h.ties
      rw [hruns] at hties
      rw [finish, hruns]
      exact ⟨List.Pairwise.nil, hties⟩
  | merges + 1, w, h, hlength => by
      rw [finish]
      split
      · rename_i hruns
        have hties := h.ties
        rw [hruns] at hties
        exact ⟨List.Pairwise.nil, hties⟩
      · rename_i run hruns
        have hties := h.ties
        rw [hruns] at hties
        exact ⟨h.rising run (by simp [hruns]), by simpa using hties⟩
      · -- with two runs or more a merge brings the end nearer
        rename_i hnil hone
        have htwo : 2 ≤ w.runs.length := by
          match hw : w.runs with
          | [] => exact absurd hw hnil
          | [run] => exact absurd hw (hone run)
          | _ :: _ :: _ => simp
        have := mergeNext_length before htwo
        exact finish_stable hby merges (mergeNext_holds hby h) (by omega)

end Waiting

/-- **Sorting is stable**: the items come in rising order of their keys, and those of one key in
the order they had. -/
theorem sort_stable (hby : ComparesBy key before items) :
    StableSort key items (sort before items) := by
  obtain ⟨hrising, hties⟩ := runsFrom_ties (leastRun items.length) items.length hby
    (Nat.le_refl _)
  unfold sort
  dsimp only
  generalize runsFrom before items.length (leastRun items.length) items = runs at hrising hties
  have hbyRuns := hby.subset hties.perm.symm.subset
  have hwaiting : Waiting.Holds key ([] ++ runs.flatten)
      (runs.foldl (Waiting.push before) ⟨[], worthwhile⟩) :=
    Waiting.foldl_push_holds (by simpa using hbyRuns) ⟨by simp, SameTies.refl key []⟩ hrising
  rw [List.nil_append] at hwaiting
  exact (Waiting.finish_stable hbyRuns _ hwaiting (Nat.le_refl _)).of_ties hties

end LeadSheet.Sorting
