import LeadSheet.Proofs.Sorting.Search
import LeadSheet.Proofs.Sorting.Stable
import LeadSheet.Sorting.Merge
import Mathlib.Tactic.SplitIfs

/-!
# Merging two runs is stable

How a merge hands its items out, one by one or galloping, changes with the luck it has. What it
hands out does not: it is always `List.merge` of the held list and the other one (`mergeFrom_fst`).
The pace and the patience are therefore forgotten at once.

A merge from the end is the same merge with both lists, and the order of the keys, turned round.
-/

namespace LeadSheet.Sorting

variable {β κ : Type} [LinearOrder κ] {key : β → κ}

/-! ## What galloping hands out at once -/

theorem merge_takeWhile_left (le : β → β → Bool) (held : List β) (first : β) (other : List β) :
    held.merge (first :: other) le
      = held.takeWhile (fun h => le h first)
        ++ first :: (held.dropWhile fun h => le h first).merge other le := by
  induction held with
  | nil => simp
  | cons h held ih =>
    rw [List.cons_merge_cons]
    by_cases hle : le h first = true
    · rw [if_pos hle, List.takeWhile_cons_of_pos (p := (le · first)) hle,
        List.dropWhile_cons_of_pos (p := (le · first)) hle, ih]
      rfl
    · rw [if_neg hle, List.takeWhile_cons_of_neg (p := (le · first)) hle,
        List.dropWhile_cons_of_neg (p := (le · first)) hle]
      rfl

theorem merge_takeWhile_right (le : β → β → Bool) (first : β) (held other : List β) :
    (first :: held).merge other le
      = other.takeWhile (fun o => !le first o)
        ++ first :: held.merge (other.dropWhile fun o => !le first o) le := by
  induction other with
  | nil => simp
  | cons o other ih =>
    rw [List.cons_merge_cons]
    by_cases hle : le first o = true
    · rw [if_pos hle, List.takeWhile_cons_of_neg (by simp [hle]),
        List.dropWhile_cons_of_neg (by simp [hle])]
      rfl
    · rw [if_neg hle, List.takeWhile_cons_of_pos (by simpa using hle),
        List.dropWhile_cons_of_pos (by simpa using hle), ih]
      rfl

namespace MergeRule

variable {rule : MergeRule β} {held other : List β}

/-- Whether an item of the held list stays before an item of the other one. -/
def stays (rule : MergeRule β) (h o : β) : Bool := !rule.overtakes o h

/-- Two lists that a rule can merge. -/
structure Fits (rule : MergeRule β) (held other : List β) : Prop where
  /-- An item that overtakes one of the held items overtakes the later ones. -/
  ofHeld : held.Pairwise fun a b =>
    ∀ o ∈ other, rule.overtakes o a = true → rule.overtakes o b = true
  /-- A held item that is overtaken is overtaken by the earlier items of the other list. -/
  ofOther : other.Pairwise fun a b =>
    ∀ h ∈ held, rule.overtakes b h = true → rule.overtakes a h = true
  /-- The last held item comes last. -/
  last : ∀ l ∈ held.getLast?, ∀ o ∈ other, rule.overtakes o l = true

theorem getLast?_of_suffix {s l : List β} (h : s <:+ l) {x : β} (hx : x ∈ s.getLast?) :
    x ∈ l.getLast? := by
  obtain ⟨before, rfl⟩ := h
  rw [Option.mem_def] at hx ⊢
  rw [List.getLast?_append, hx]
  rfl

/-- What is left of two lists still fits. -/
theorem Fits.suffix (h : rule.Fits held other) {held' other' : List β} (hheld : held' <:+ held)
    (hother : other' <:+ other) : rule.Fits held' other' where
  ofHeld := (h.ofHeld.sublist hheld.sublist).imp fun hab o ho => hab o (hother.subset ho)
  ofOther := (h.ofOther.sublist hother.sublist).imp fun hab x hx => hab x (hheld.subset hx)
  last l hl o ho := h.last l (getLast?_of_suffix hheld hl) o (hother.subset ho)

/-- What a step of a merge owes: the merge of what it leaves comes behind what it hands out. -/
structure MergeStep.Fair (rule : MergeRule β) (held other : List β) (step : MergeStep β) :
    Prop where
  merge : held.merge other rule.stays = step.out ++ step.held.merge step.other rule.stays
  leavesHeld : step.held <:+ held
  leavesOther : step.other <:+ other
  /-- At least one item is handed out. -/
  progress : step.held.length + step.other.length < held.length + other.length

theorem heldTurn_fair {first : β} (h : rule.Fits held (first :: other)) :
    MergeStep.Fair rule held (first :: other) (rule.heldTurn held first other) := by
  have hgallop : gallop rule.mirrored (fun item => !rule.overtakes first item) held
      = (held.takeWhile fun item => !rule.overtakes first item).length := by
    refine gallop_eq_takeWhile rule.mirrored (h.ofHeld.imp fun {a b} hab hb => ?_)
    -- an item that is not overtaken has none before it that is
    have := mt (hab first (List.mem_cons_self ..))
    simp_all
  unfold heldTurn
  dsimp only
  rw [hgallop, take_length_takeWhile, drop_length_takeWhile]
  refine ⟨?_, List.dropWhile_suffix _, List.suffix_cons first other, ?_⟩
  · rw [merge_takeWhile_left, List.append_assoc]
    rfl
  · have := (List.dropWhile_suffix (l := held) fun item => !rule.overtakes first item).length_le
    dsimp only
    rw [List.length_cons]
    omega

theorem otherTurn_fair {first : β} (h : rule.Fits (first :: held) other) :
    MergeStep.Fair rule (first :: held) other (rule.otherTurn first held other) := by
  have hgallop : gallop rule.mirrored (fun item => rule.overtakes item first) other
      = (other.takeWhile fun item => rule.overtakes item first).length :=
    gallop_eq_takeWhile rule.mirrored (h.ofOther.imp fun hab => hab first (List.mem_cons_self ..))
  have hstays : (fun o => !rule.stays first o) = fun o => rule.overtakes o first := by
    funext o
    rw [stays, Bool.not_not]
  unfold otherTurn
  dsimp only
  rw [hgallop, take_length_takeWhile, drop_length_takeWhile]
  refine ⟨?_, List.suffix_cons first held, List.dropWhile_suffix _, ?_⟩
  · rw [merge_takeWhile_right, hstays, List.append_assoc]
    rfl
  · have := (List.dropWhile_suffix (l := other) fun item => rule.overtakes item first).length_le
    dsimp only
    rw [List.length_cons]
    omega

/-- A single item of the other list overtakes the first held one. -/
theorem single_other_fair {first item : β} (h : rule.overtakes item first = true) :
    MergeStep.Fair rule (first :: held) (item :: other) ⟨[item], first :: held, other, 1⟩ := by
  refine ⟨?_, List.suffix_refl _, List.suffix_cons item other, ?_⟩
  · rw [List.cons_merge_cons, stays, h]
    rfl
  · dsimp only
    rw [List.length_cons, List.length_cons]
    omega

/-- A single item of the held list stays before the other one. -/
theorem single_held_fair {first item : β} (h : ¬rule.overtakes item first = true) :
    MergeStep.Fair rule (first :: held) (item :: other) ⟨[first], held, item :: other, 1⟩ := by
  refine ⟨?_, List.suffix_cons first held, List.suffix_refl _, ?_⟩
  · rw [List.cons_merge_cons, stays, Bool.eq_false_iff.mpr h]
    rfl
  · dsimp only
    rw [List.length_cons, List.length_cons]
    omega

/-- If all of the other list overtakes the one held item, that item comes last. -/
theorem merge_singleton {last : β} (h : ∀ o ∈ other, rule.overtakes o last = true) :
    [last].merge other rule.stays = other ++ [last] := by
  induction other with
  | nil => simp
  | cons o other ih =>
    rw [List.cons_merge_cons, stays, h o (List.mem_cons_self ..), if_neg (by simp),
      ih fun x hx => h x (List.mem_cons_of_mem o hx)]
    rfl

/-- **Pace and patience decide nothing.** -/
theorem mergeFrom_fst (rule : MergeRule β) :
    ∀ (steps : Nat) (pace : Pace) (patience : Nat) (held other : List β),
      held.length + other.length ≤ steps → rule.Fits held other →
      (rule.mergeFrom steps pace patience held other).1 = held.merge other rule.stays := by
  intro steps
  induction steps with
  | zero =>
    intro pace patience held other hsteps _
    have hheld : held = [] := List.length_eq_zero_iff.mp (by omega)
    have hother : other = [] := List.length_eq_zero_iff.mp (by omega)
    subst hheld hother
    simp [mergeFrom]
  | succ steps ih =>
    intro pace patience held other hsteps hfits
    -- a fair step leaves lists that fit, and fewer items
    have goOn : ∀ (step : MergeStep β) (pace : Pace) (patience : Nat),
        MergeStep.Fair rule held other step →
        step.out ++ (rule.mergeFrom steps pace patience step.held step.other).1
          = held.merge other rule.stays := by
      intro step pace patience hfair
      rw [hfair.merge, ih pace patience step.held step.other (by have := hfair.progress; omega)
        (hfits.suffix hfair.leavesHeld hfair.leavesOther)]
    match held, other with
    | [], other => simp [mergeFrom]
    | [last], other => rw [merge_singleton fun o ho => hfits.last last rfl o ho, mergeFrom]
    | first :: second :: held, [] => simp [mergeFrom]
    | first :: second :: held, item :: other =>
      have hturn : ∀ ofHeld : Bool, MergeStep.Fair rule (first :: second :: held) (item :: other)
          (if ofHeld = true then rule.heldTurn (first :: second :: held) item other
            else rule.otherTurn first (second :: held) (item :: other)) := by
        intro ofHeld
        split
        · exact heldTurn_fair hfits
        · exact otherTurn_fair hfits
      cases pace with
      | single heldWins otherWins =>
        rw [mergeFrom]
        dsimp only
        split
        · rename_i hover
          exact goOn _ _ _ (single_other_fair hover)
        · rename_i hover
          exact goOn _ _ _ (single_held_fair hover)
      | firstTurn =>
        rw [mergeFrom]
        exact goOn _ _ _ (hturn _)
      | secondTurn wins =>
        have hfair := hturn rule.mirrored
        rw [mergeFrom]
        dsimp only
        split_ifs at hfair ⊢ <;> exact goOn _ _ _ hfair

/-! ## Rising lists -/

theorem Fits.of_rising
    (hover : ∀ o ∈ other, ∀ h ∈ held, rule.overtakes o h = decide (key o < key h))
    (hheld : Rising key held) (hother : Rising key other)
    (hlast : ∀ l ∈ held.getLast?, ∀ o ∈ other, key o < key l) : rule.Fits held other where
  ofHeld := hheld.imp_of_mem fun ha hb hab o ho hlt => by
    rw [hover o ho _ ha, decide_eq_true_eq] at hlt
    rw [hover o ho _ hb, decide_eq_true_eq]
    exact hlt.trans_le hab
  ofOther := hother.imp_of_mem fun ha hb hab h hh hlt => by
    rw [hover _ hb h hh, decide_eq_true_eq] at hlt
    rw [hover _ ha h hh, decide_eq_true_eq]
    exact hab.trans_lt hlt
  last l hl o ho := by
    rw [hover o ho l (List.mem_of_getLast? hl), decide_eq_true_eq]
    exact hlast l hl o ho

/-- A merge is a stable sort if the first item of the other list goes first and the last held item
comes last. -/
theorem merge_stable {item : β} (patience : Nat)
    (hover : ∀ o ∈ item :: other, ∀ h ∈ held, rule.overtakes o h = decide (key o < key h))
    (hheld : Rising key held) (hother : Rising key (item :: other))
    (hfirst : ∀ h ∈ held, key item < key h)
    (hlast : ∀ l ∈ held.getLast?, ∀ o ∈ item :: other, key o < key l) :
    StableSort key (held ++ item :: other) (rule.merge patience held (item :: other)).1 := by
  have hfits := (Fits.of_rising hover hheld hother hlast).suffix (List.suffix_refl held)
    (List.suffix_cons item other)
  have hmerge : (rule.merge patience held (item :: other)).1
      = held.merge (item :: other) rule.stays := by
    unfold merge
    dsimp only
    rw [mergeFrom_fst rule _ _ _ _ _ (Nat.le_refl _) hfits]
    match held with
    | [] => simp
    | h :: held =>
      have hgoes : rule.overtakes item h = true := by
        rw [hover item (List.mem_cons_self ..) h (List.mem_cons_self ..)]
        simpa using hfirst h (List.mem_cons_self ..)
      rw [List.cons_merge_cons, stays, hgoes]
      rfl
  rw [hmerge]
  refine stableSort_merge (fun h hh o ho => ?_) hheld hother
  rw [stays, hover o ho h hh, ← decide_not]
  exact decide_eq_decide.mpr not_lt

end MergeRule

/-! ## Two runs -/

/-- A comparison that goes by keys, at least among the items of a list. -/
def ComparesBy (key : β → κ) (before : β → β → Bool) (l : List β) : Prop :=
  ∀ a ∈ l, ∀ b ∈ l, before a b = decide (key a < key b)

theorem ComparesBy.subset {before : β → β → Bool} {l s : List β} (h : ComparesBy key before l)
    (hs : s ⊆ l) : ComparesBy key before s :=
  fun a ha b hb => h a (hs ha) b (hs hb)

section

variable {before : β → β → Bool} {left right : List β}

theorem mergeForward_stable {first : β} (patience : Nat)
    (hby : ComparesBy key before (left ++ first :: right)) (hleft : Rising key left)
    (hright : Rising key (first :: right)) (hfirst : ∀ x ∈ left, key first < key x)
    (hlast : ∀ l ∈ left.getLast?, ∀ y ∈ first :: right, key y < key l) :
    StableSort key (left ++ first :: right)
      (mergeForward before patience left (first :: right)).1 :=
  MergeRule.merge_stable patience
    (fun y hy x hx => hby y (List.mem_append_right _ hy) x (List.mem_append_left _ hx))
    hleft hright hfirst hlast

theorem mergeBackward_stable {first last : β} (patience : Nat)
    (hby : ComparesBy key before (left ++ first :: right)) (hleft : Rising key left)
    (hright : Rising key (first :: right)) (hmem : last ∈ left.getLast?)
    (hfirst : ∀ x ∈ left, key first < key x) (hlast : ∀ y ∈ first :: right, key y < key last) :
    StableSort key (left ++ first :: right)
      (mergeBackward before patience left (first :: right)).1 := by
  obtain ⟨others, hothers⟩ : ∃ others, left.reverse = last :: others := by
    rw [Option.mem_def, ← List.head?_reverse] at hmem
    exact ⟨_, (List.head?_eq_some_iff.mp hmem).choose_spec⟩
  have hmerged : StableSort (backwards key) ((first :: right).reverse ++ last :: others)
      (MergeRule.merge ⟨fun item held => before held item, true⟩ patience (first :: right).reverse
        (last :: others)).1 := by
    refine MergeRule.merge_stable patience ?_ hright.backwards (hothers ▸ hleft.backwards) ?_ ?_
    · rw [← hothers]
      intro x hx y hy
      exact hby y (List.mem_append_right _ (List.mem_reverse.mp hy)) x
        (List.mem_append_left _ (List.mem_reverse.mp hx))
    · exact fun y hy => OrderDual.toDual_lt_toDual.mpr (hlast y (List.mem_reverse.mp hy))
    · intro y hy x hx
      rw [← hothers] at hx
      rw [List.getLast?_reverse, List.head?_cons, Option.mem_some_iff] at hy
      subst hy
      exact OrderDual.toDual_lt_toDual.mpr (hfirst x (List.mem_reverse.mp hx))
  -- turned round, what the other list overtakes is what stays before it
  have hturned := hmerged.turn
  rw [← hothers, List.reverse_append, List.reverse_reverse, List.reverse_reverse] at hturned
  unfold mergeBackward
  exact hturned

/-- The items at the start of a rising run that an item behind the run does not pass. -/
theorem gallop_settled {item : β} {settled : Nat}
    (hby : ∀ x ∈ left, before item x = decide (key item < key x)) (hleft : Rising key left)
    (hsettled : gallop false (fun x => !before item x) left = settled) :
    (∀ x ∈ left.take settled, key x ≤ key item) ∧ ∀ x ∈ left.drop settled, key item < key x := by
  have hcut := cut_gallop (fun x => !before item x) false
    (hleft.imp_of_mem fun {a b} ha hb hab => by
      rw [hby a ha, hby b hb]
      simpa using hab.trans)
  rw [hsettled] at hcut
  constructor
  · intro x hx
    simpa [hby x (List.mem_of_mem_take hx)] using hcut.of_mem_take hx
  · intro x hx
    simpa [hby x (List.mem_of_mem_drop hx)] using hcut.of_mem_drop hx

/-- The items at the end of a rising run that do not pass an item before the run. -/
theorem gallop_late {item : β} {late : Nat}
    (hby : ∀ y ∈ right, before y item = decide (key y < key item)) (hright : Rising key right)
    (hlate : gallop true (fun y => !before y item) right.reverse = late) :
    (∀ y ∈ right.take (right.length - late), key y < key item) ∧
      ∀ y ∈ right.drop (right.length - late), key item ≤ key y := by
  have hcut : Cut (fun y => !before y item) right.reverse _ := cut_gallop _ true (by
    rw [List.pairwise_reverse]
    refine hright.imp_of_mem fun {a b} ha hb hab => ?_
    rw [hby a ha, hby b hb]
    simpa using fun h => h.trans hab)
  rw [hlate] at hcut
  constructor
  · intro y hy
    have := hcut.of_mem_drop (x := y) (by rwa [List.drop_reverse, List.mem_reverse])
    simpa [hby y (List.mem_of_mem_take hy)] using this
  · intro y hy
    have := hcut.of_mem_take (x := y) (by rwa [List.take_reverse, List.mem_reverse])
    simpa [hby y (List.mem_of_mem_drop hy)] using this

/-- What is left between the items that stay is merged, from whichever side is shorter. -/
theorem mergeMiddle_stable {first last : β} {rest early : List β} (patience count : Nat)
    (hby : ComparesBy key before (early ++ (first :: rest).take count))
    (hearly : Rising key early) (hright : Rising key (first :: rest))
    (hlast : last ∈ early.getLast?) (hfirst : ∀ x ∈ early, key first < key x)
    (hmoves : ∀ y ∈ (first :: rest).take count, key y < key last) :
    StableSort key (early ++ (first :: rest).take count)
      (if count = 0 then (early, patience)
        else if early.length ≤ count then
          mergeForward before patience early ((first :: rest).take count)
        else mergeBackward before patience early ((first :: rest).take count)).1 := by
  cases count with
  | zero => simpa using hearly.stableSort
  | succ count =>
    have hlate : Rising key ((first :: rest).take (count + 1)) :=
      hright.sublist (List.take_sublist ..)
    rw [List.take_succ_cons] at hby hlate hmoves ⊢
    rw [if_neg (Nat.succ_ne_zero count)]
    split
    · exact mergeForward_stable patience hby hearly hlate hfirst
        fun l hl => Option.mem_unique hl hlast ▸ hmoves
    · exact mergeBackward_stable patience hby hearly hlate hlast hfirst hmoves

/-- **Merging two rising runs is stable**, whatever stays in its place at the outer ends and from
whichever side the rest is merged. -/
theorem mergeRuns_stable (patience : Nat) (hby : ComparesBy key before (left ++ right))
    (hleft : Rising key left) (hright : Rising key right) :
    StableSort key (left ++ right) (mergeRuns before patience left right).1 := by
  unfold mergeRuns
  match right with
  | [] => simpa using hleft.stableSort
  | first :: rest =>
    have hbyFirst : ∀ x ∈ left, before first x = decide (key first < key x) := fun x hx =>
      hby first (List.mem_append_right _ (List.mem_cons_self ..)) x (List.mem_append_left _ hx)
    have hfirstLe : ∀ y ∈ first :: rest, key first ≤ key y := fun y hy => by
      rcases List.mem_cons.mp hy with rfl | hy
      · exact le_rfl
      · exact List.rel_of_pairwise_cons hright hy
    dsimp only [List.head?_cons]
    generalize hsettled : gallop false (fun item => !before first item) left = settled
    obtain ⟨hstay, hmove⟩ := gallop_settled hbyFirst hleft hsettled
    have hsplitLeft := List.take_append_drop settled left
    have hsettledRun := hleft.sublist (List.take_sublist settled left)
    have hearlyRun := hleft.sublist (List.drop_sublist settled left)
    split
    · -- the whole left run is settled
      rename_i hnone
      rw [List.getLast?_eq_none_iff.mp hnone, List.append_nil] at hsplitLeft
      rw [hsplitLeft] at hstay
      exact (hleft.append hright fun x hx y hy => (hstay x hx).trans (hfirstLe y hy)).stableSort
    · rename_i last hlast
      have hlastMem : last ∈ left := List.mem_of_mem_drop (List.mem_of_getLast? hlast)
      have hbyLast : ∀ y ∈ first :: rest, before y last = decide (key y < key last) := fun y hy =>
        hby y (List.mem_append_right _ hy) last (List.mem_append_left _ hlastMem)
      generalize hlate : gallop true (fun item => !before item last) (first :: rest).reverse = late
      obtain ⟨hmoves, hstays⟩ := gallop_late hbyLast hright hlate
      generalize (first :: rest).length - late = count at hmoves hstays
      have hsplitRight := List.take_append_drop count (first :: rest)
      have hmerged := mergeMiddle_stable patience count
        (hby.subset (List.append_subset.mpr
          ⟨List.Subset.trans (List.drop_subset ..) (List.subset_append_left ..),
            List.Subset.trans (List.take_subset ..) (List.subset_append_right ..)⟩))
        hearlyRun hright hlast hmove hmoves
      -- what is settled comes before what is merged, and what is late behind it
      have hwhole := hmerged.between hsettledRun (hright.sublist (List.drop_sublist count _))
        ?_ ?_ (fun hnil => ?_)
      · rw [List.append_assoc (left.drop settled), hsplitRight, ← List.append_assoc, hsplitLeft]
          at hwhole
        exact hwhole
      · intro x hx y hy
        rcases List.mem_append.mp hy with hy | hy
        · exact (hstay x hx).trans (hmove y hy).le
        · exact (hstay x hx).trans (hfirstLe y (List.mem_of_mem_take hy))
      · intro x hx y hy
        rcases List.mem_append.mp hx with hx | hx
        · exact (hearlyRun.le_getLast? hlast hx).trans (hstays y hy)
        · exact (hmoves x hx).le.trans (hstays y hy)
      · rw [(List.append_eq_nil_iff.mp hnil).1] at hlast
        exact absurd hlast (by simp)

end

end LeadSheet.Sorting
