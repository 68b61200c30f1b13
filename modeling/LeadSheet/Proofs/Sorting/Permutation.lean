import LeadSheet.Proofs.Sorting.Sort

/-!
# Sorting loses nothing

A sort that is given a comparison that makes no sense, as where some of the keys are no numbers,
still gives back the items it was given. Which order they come in then rests on every search and
every merge; that none is lost or made up does not. Whatever place a search finds, the steps below
only cut lists and put the parts together again.
-/

namespace LeadSheet.Sorting

variable {β : Type}

/-! ## Runs -/

theorem insert_perm (before : β → β → Bool) (items : List β) (item : β) :
    (insert before items item).Perm (item :: items) := by
  unfold insert
  dsimp only
  refine List.perm_middle.trans ?_
  rw [List.take_append_drop]

theorem foldl_insert_perm (before : β → β → Bool) : ∀ (items run : List β),
    (items.foldl (insert before) run).Perm (run ++ items)
  | [], run => by simp
  | item :: items, run => by
      rw [List.foldl_cons]
      refine (foldl_insert_perm before items _).trans ?_
      exact ((insert_perm before run item).append_right items).trans List.perm_middle.symm

theorem leadingRun_perm (before : β → β → Bool) (items : List β) :
    ((leadingRun before items).1 ++ (leadingRun before items).2).Perm items := by
  match items with
  | [] => exact .nil
  | [_] => exact .rfl
  | first :: second :: rest =>
    rw [leadingRun]
    split
    · refine ((List.reverse_perm _).append_right _).trans (.of_eq ?_)
      exact congrArg (first :: second :: ·) (runFrom_append _ second rest)
    · exact .of_eq (congrArg (first :: second :: ·) (runFrom_append _ second rest))

/-- Something is in the leading run. -/
theorem leadingRun_ne_nil (before : β → β → Bool) (item : β) (rest : List β) :
    (leadingRun before (item :: rest)).1 ≠ [] := by
  match rest with
  | [] => exact List.cons_ne_nil _ _
  | second :: rest =>
    rw [leadingRun]
    split
    · simp
    · exact List.cons_ne_nil _ _

theorem runsFrom_perm (before : β → β → Bool) (least : Nat) : ∀ (count : Nat) {items : List β},
    items.length ≤ count → (runsFrom before count least items).flatten.Perm items
  | 0, items, hcount => by
      rw [List.length_eq_zero_iff.mp (Nat.le_zero.mp hcount)]
      exact .nil
  | count + 1, [], _ => .nil
  | count + 1, item :: rest, hcount => by
      have hlead := leadingRun_perm before (item :: rest)
      have hnonempty := List.length_pos_iff.mpr (leadingRun_ne_nil before item rest)
      unfold runsFrom
      dsimp only
      generalize leadingRun before (item :: rest) = lead at hlead hnonempty
      generalize least - lead.1.length = more
      have hlength := hlead.length_eq
      simp only [List.length_append, List.length_cons] at hlength hcount
      have hothers : (runsFrom before count least (lead.2.drop more)).flatten.Perm
          (lead.2.drop more) :=
        runsFrom_perm before least count (by rw [List.length_drop]; omega)
      rw [List.flatten_cons]
      refine ((foldl_insert_perm before _ lead.1).append hothers).trans ?_
      rw [List.append_assoc, List.take_append_drop]
      exact hlead

/-! ## Merging two runs -/

namespace MergeRule

/-- A step of a merge hands out some items and leaves the others. -/
def MergeStep.Keeps (held other : List β) (step : MergeStep β) : Prop :=
  (step.out ++ (step.held ++ step.other)).Perm (held ++ other)

theorem heldTurn_keeps (rule : MergeRule β) (held : List β) (first : β) (other : List β) :
    MergeStep.Keeps held (first :: other) (rule.heldTurn held first other) := by
  unfold MergeStep.Keeps heldTurn
  dsimp only
  generalize gallop rule.mirrored (fun item => !rule.overtakes first item) held = found
  conv => rhs; rw [← List.take_append_drop found held, List.append_assoc]
  rw [List.append_assoc, List.singleton_append]
  exact List.perm_middle.symm.append_left _

theorem otherTurn_keeps (rule : MergeRule β) (first : β) (held other : List β) :
    MergeStep.Keeps (first :: held) other (rule.otherTurn first held other) := by
  unfold MergeStep.Keeps otherTurn
  dsimp only
  generalize gallop rule.mirrored (fun item => rule.overtakes item first) other = found
  -- what is taken from the front of the other list passes the held list
  have hswap : (other.take found ++ first :: held).Perm (first :: held ++ other.take found) :=
    List.perm_append_comm
  have hpass := hswap.append_right (other.drop found)
  rw [List.append_assoc, List.append_assoc, List.take_append_drop] at hpass
  rw [List.append_assoc]
  exact hpass

/-- The first item of the other list passes the held list. -/
theorem single_other_keeps (item : β) (held other : List β) :
    MergeStep.Keeps held (item :: other) ⟨[item], held, other, 1⟩ := by
  unfold MergeStep.Keeps
  rw [List.singleton_append]
  exact List.perm_middle.symm

theorem mergeFrom_perm (rule : MergeRule β) :
    ∀ (steps : Nat) (pace : Pace) (patience : Nat) (held other : List β),
      (rule.mergeFrom steps pace patience held other).1.Perm (held ++ other) := by
  intro steps
  induction steps with
  | zero =>
    intro pace patience held other
    match held with
    | [] => exact .rfl
    | [last] => exact List.perm_append_comm
    | first :: second :: held => cases other <;> exact .rfl
  | succ steps ih =>
    intro pace patience held other
    have goOn : ∀ (step : MergeStep β) (pace : Pace) (patience : Nat),
        MergeStep.Keeps held other step →
        (step.out ++ (rule.mergeFrom steps pace patience step.held step.other).1).Perm
          (held ++ other) :=
      fun step pace patience hkeeps => ((ih pace patience _ _).append_left _).trans hkeeps
    match held, other with
    | [], other => exact .rfl
    | [last], other => exact List.perm_append_comm
    | first :: second :: held, [] => exact .rfl
    | first :: second :: held, item :: other =>
      have hturn : ∀ ofHeld : Bool,
          MergeStep.Keeps (first :: second :: held) (item :: other)
            (if ofHeld = true then rule.heldTurn (first :: second :: held) item other
              else rule.otherTurn first (second :: held) (item :: other)) := by
        intro ofHeld
        split
        · exact heldTurn_keeps ..
        · exact otherTurn_keeps ..
      cases pace with
      | single heldWins otherWins =>
        rw [mergeFrom]
        dsimp only
        split
        · exact goOn _ _ _ (single_other_keeps item (first :: second :: held) other)
        · exact goOn ⟨[first], second :: held, item :: other, 1⟩ _ _ (List.Perm.refl _)
      | firstTurn =>
        rw [mergeFrom]
        exact goOn _ _ _ (hturn _)
      | secondTurn wins =>
        have hkeeps := hturn rule.mirrored
        rw [mergeFrom]
        dsimp only
        split_ifs at hkeeps ⊢ <;> exact goOn _ _ _ hkeeps

theorem merge_perm (rule : MergeRule β) (patience : Nat) (held other : List β) :
    (rule.merge patience held other).1.Perm (held ++ other) := by
  cases other with
  | nil => simp [merge]
  | cons item other =>
    exact ((rule.mergeFrom_perm ..).cons item).trans List.perm_middle.symm

end MergeRule

variable {before : β → β → Bool}

theorem mergeForward_perm (patience : Nat) (left right : List β) :
    (mergeForward before patience left right).1.Perm (left ++ right) :=
  MergeRule.merge_perm ..

theorem mergeBackward_perm (patience : Nat) (left right : List β) :
    (mergeBackward before patience left right).1.Perm (left ++ right) := by
  refine (List.reverse_perm _).trans ((MergeRule.merge_perm ..).trans ?_)
  rw [← List.reverse_append]
  exact List.reverse_perm _

theorem mergeRuns_perm (patience : Nat) (left right : List β) :
    (mergeRuns before patience left right).1.Perm (left ++ right) := by
  cases right with
  | nil => simp [mergeRuns]
  | cons first rest =>
    unfold mergeRuns
    dsimp only [List.head?_cons]
    generalize gallop false (fun item => !before first item) left = settled
    split
    · exact .rfl
    · rename_i last _
      dsimp only
      generalize (first :: rest).length
        - gallop true (fun item => !before item last) (first :: rest).reverse = count
      have hmerged : (if count = 0 then (left.drop settled, patience)
          else if (left.drop settled).length ≤ count then
            mergeForward before patience (left.drop settled) ((first :: rest).take count)
          else mergeBackward before patience (left.drop settled)
            ((first :: rest).take count)).1.Perm
          (left.drop settled ++ (first :: rest).take count) := by
        split_ifs with hzero
        · simp [hzero]
        · exact mergeForward_perm ..
        · exact mergeBackward_perm ..
      refine ((hmerged.append_left (left.take settled)).append_right _).trans (.of_eq ?_)
      rw [← List.append_assoc, List.take_append_drop, List.append_assoc, List.take_append_drop]

/-! ## Waiting runs -/

namespace Waiting

theorem mergeLast_perm (w : Waiting β) :
    (w.mergeLast before).runs.flatten.Perm w.runs.flatten := by
  unfold mergeLast
  split
  · rename_i last previous earlier hruns
    rw [hruns]
    dsimp only
    simp only [List.flatten_cons]
    rw [← List.append_assoc]
    exact ((mergeRuns_perm ..).trans List.perm_append_comm).append_right _
  · exact .rfl

theorem mergeBeforeLast_perm (w : Waiting β) :
    (w.mergeBeforeLast before).runs.flatten.Perm w.runs.flatten := by
  unfold mergeBeforeLast
  split
  · rename_i last earlier hruns
    rw [hruns]
    exact (mergeLast_perm ⟨earlier, w.patience⟩).append_left last
  · exact .rfl

theorem mergeNext_perm (w : Waiting β) :
    (w.mergeNext before).runs.flatten.Perm w.runs.flatten := by
  unfold mergeNext
  split
  · split
    · exact mergeBeforeLast_perm w
    · exact mergeLast_perm w
  · exact mergeLast_perm w

theorem settle_perm : ∀ (merges : Nat) (w : Waiting β),
    (settle before merges w).runs.flatten.Perm w.runs.flatten
  | 0, _ => .rfl
  | merges + 1, w => by
      rw [settle]
      split
      · exact (settle_perm merges _).trans (mergeNext_perm w)
      · split
        · split
          · exact (settle_perm merges _).trans (mergeLast_perm w)
          · exact .rfl
        · exact .rfl

theorem foldl_push_perm : ∀ (runs : List (List β)) (w : Waiting β),
    (runs.foldl (push before) w).runs.flatten.Perm (w.runs.flatten ++ runs.flatten)
  | [], w => by simp
  | run :: runs, w => by
      rw [List.foldl_cons, List.flatten_cons, ← List.append_assoc]
      refine (foldl_push_perm runs _).trans (List.Perm.append_right _ ?_)
      exact (settle_perm ..).trans List.perm_append_comm

theorem finish_perm : ∀ (merges : Nat) (w : Waiting β),
    (finish before merges w).Perm w.runs.flatten
  | 0, w => (List.reverse_perm w.runs).flatten
  | merges + 1, w => by
      rw [finish]
      split
      · rename_i hruns
        rw [hruns]
        exact .nil
      · rename_i run hruns
        rw [hruns, List.flatten_singleton]
      · exact (finish_perm merges _).trans (mergeNext_perm w)

end Waiting

/-- **Sorting loses nothing and makes nothing up**, whatever the comparison is. -/
theorem sort_perm (before : β → β → Bool) (items : List β) : (sort before items).Perm items := by
  refine (Waiting.finish_perm _ _).trans ((Waiting.foldl_push_perm _ _).trans ?_)
  rw [List.flatten_nil, List.nil_append]
  exact runsFrom_perm before _ _ (Nat.le_refl _)

end LeadSheet.Sorting
