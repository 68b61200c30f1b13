import LeadSheet.Midi.Export
import LeadSheet.Proofs.Sorting.Sort
import Mathlib.Data.List.Lex
import Mathlib.Data.List.Nodup
import Mathlib.Data.List.Perm.Basic

/-!
# Names of tracks

Tracks of one name belong together. A channel plan goes through the names in the order in which they
first appear, a file through the names in order of their code units; both go through the same names,
each of them once, and take the same track to be the first one of a name.

Going through the names and taking the tracks of each leaves nothing out and takes nothing twice
(`flatMap_filter_perm`), which is what lets two walks through a score be compared.
-/

namespace LeadSheet

/-! ## Grouping -/

/-- Items taken group by group are the items. -/
theorem flatMap_filter_perm {β κ : Type} [BEq κ] [LawfulBEq κ] (key : β → κ) :
    ∀ {keys : List κ} {items : List β}, keys.Nodup → (∀ x ∈ items, key x ∈ keys) →
      (keys.flatMap fun k => items.filter fun x => key x == k).Perm items
  | [], items, _, hcovered => by
      rw [List.eq_nil_iff_forall_not_mem.mpr fun x hx => List.not_mem_nil (hcovered x hx)]
      exact .nil
  | k :: keys, items, hnodup, hcovered => by
      rw [List.nodup_cons] at hnodup
      -- the other groups are those of the items without the group of `k`
      have hothers : (keys.flatMap fun j => items.filter fun x => key x == j)
          = keys.flatMap fun j => (items.filter fun x => !(key x == k)).filter
              fun x => key x == j := by
        refine List.flatMap_congr fun j hj => ?_
        rw [List.filter_filter]
        refine List.filter_congr fun x _ => ?_
        by_cases hx : key x = j
        · have : key x ≠ k := fun hk => hnodup.1 (hk ▸ hx ▸ hj)
          simp [hx, hx ▸ this]
        · simp [hx]
      have hrest : ∀ x ∈ items.filter fun x => !(key x == k), key x ∈ keys := by
        intro x hx
        obtain ⟨hmem, hne⟩ := List.mem_filter.mp hx
        rcases List.mem_cons.mp (hcovered x hmem) with heq | htail
        · simp [heq] at hne
        · exact htail
      rw [List.flatMap_cons, hothers]
      exact ((flatMap_filter_perm key hnodup.2 hrest).append_left _).trans
        (List.filter_append_perm _ items)

/-- What does not depend on places does not see them. -/
theorem map_mapIdx {β γ δ : Type} (g : γ → δ) (h : β → δ) :
    ∀ {items : List β} {f : Nat → β → γ}, (∀ i x, g (f i x) = h x) →
      (items.mapIdx f).map g = items.map h
  | [], _, _ => rfl
  | x :: items, f, hf => by
      rw [List.mapIdx_cons, List.map_cons, List.map_cons, hf,
        map_mapIdx g h fun i y => hf (i + 1) y]

/-- Among items of different keys, one alone has its key. -/
theorem filter_eq_singleton {β κ : Type} [BEq κ] [LawfulBEq κ] (key : β → κ) {items : List β}
    (hnodup : (items.map key).Nodup) {x : β} (hx : x ∈ items) :
    items.filter (fun y => key y == key x) = [x] := by
  induction items with
  | nil => cases hx
  | cons y items ih =>
    rw [List.map_cons, List.nodup_cons] at hnodup
    rcases List.mem_cons.mp hx with rfl | hx
    · rw [List.filter_cons_of_pos (by simp), List.filter_eq_nil_iff.mpr fun z hz => ?_]
      intro heq
      exact hnodup.1 (List.mem_map.mpr ⟨z, hz, eq_of_beq heq⟩)
    · have hne : key y ≠ key x := fun heq =>
        hnodup.1 (List.mem_map.mpr ⟨x, hx, heq.symm⟩)
      rw [List.filter_cons_of_neg (by simpa using hne), ih hnodup.2 hx]

/-! ## The first track of each name -/

variable {α : Type}

/-- Keeps a track unless its name is there already. -/
private def keepFirst (kept : List (Track α)) (t : Track α) : List (Track α) :=
  if kept.any (·.name == t.name) then kept else kept ++ [t]

private theorem find?_keepFirst (name : String) (kept : List (Track α)) (t : Track α) :
    (keepFirst kept t).find? (·.name == name)
      = (kept.find? (·.name == name)).or ([t].find? (·.name == name)) := by
  unfold keepFirst
  split
  · rename_i hany
    by_cases hname : t.name = name
    · subst hname
      obtain ⟨u, hu⟩ := Option.isSome_iff_exists.mp
        (List.find?_isSome.mpr (List.any_eq_true.mp hany))
      rw [hu, Option.some_or]
    · simp [hname]
  · exact List.find?_append

private theorem find?_foldl (name : String) : ∀ (tracks kept : List (Track α)),
    (tracks.foldl keepFirst kept).find? (·.name == name)
      = (kept.find? (·.name == name)).or (tracks.find? (·.name == name))
  | [], kept => by simp
  | t :: tracks, kept => by
      rw [List.foldl_cons, find?_foldl name tracks, find?_keepFirst, Option.or_assoc,
        ← List.find?_append, List.singleton_append]

private theorem nodup_foldl : ∀ (tracks : List (Track α)) {kept : List (Track α)},
    (kept.map (·.name)).Nodup → ((tracks.foldl keepFirst kept).map (·.name)).Nodup
  | [], _, h => h
  | t :: tracks, kept, h => by
      refine nodup_foldl tracks ?_
      unfold keepFirst
      split
      · exact h
      · rename_i hany
        rw [List.map_append, List.map_singleton]
        refine List.nodup_append.mpr ⟨h, List.nodup_singleton _, fun name hname other hother => ?_⟩
        rw [List.mem_singleton] at hother
        rintro rfl
        obtain ⟨u, hu, rfl⟩ := List.mem_map.mp hname
        exact hany (List.any_eq_true.mpr ⟨u, hu, by simpa using hother⟩)

/-- No name comes twice. -/
theorem nodup_firstOfEachName (tracks : List (Track α)) :
    ((firstOfEachName tracks).map (·.name)).Nodup :=
  nodup_foldl tracks List.nodup_nil

/-- The first track of a name is the one that is kept. -/
theorem find?_firstOfEachName (tracks : List (Track α)) (name : String) :
    (firstOfEachName tracks).find? (·.name == name) = tracks.find? (·.name == name) :=
  find?_foldl name tracks []

/-- Every name is among those that are kept. -/
theorem name_mem_firstOfEachName {tracks : List (Track α)} {t : Track α} (h : t ∈ tracks) :
    t.name ∈ (firstOfEachName tracks).map (·.name) := by
  obtain ⟨u, hu⟩ := Option.isSome_iff_exists.mp
    (List.find?_isSome.mpr ⟨t, h, BEq.rfl⟩ : (tracks.find? (·.name == t.name)).isSome = true)
  rw [← find?_firstOfEachName] at hu
  exact List.mem_map.mpr ⟨u, List.mem_of_find?_eq_some hu, by simpa using List.find?_some hu⟩

/-! ## Names in order -/

theorem unitsBefore_comparesBy (names : List String) :
    Sorting.ComparesBy (fun name => Text.units name.toList) Text.unitsBefore names :=
  fun _ _ _ _ => decide_eq_decide.mpr Iff.rfl

namespace Midi

/-- The names in order are those that are kept. -/
theorem sortedNames_perm (s : Score α) :
    (sortedNames s).Perm ((firstOfEachName s.tracks).map (·.name)) :=
  (Sorting.sort_stable (unitsBefore_comparesBy _)).perm.symm

theorem nodup_sortedNames (s : Score α) : (sortedNames s).Nodup :=
  (sortedNames_perm s).nodup_iff.mpr (nodup_firstOfEachName s.tracks)

theorem name_mem_sortedNames {s : Score α} {t : Track α} (h : t ∈ s.tracks) :
    t.name ∈ sortedNames s :=
  (sortedNames_perm s).mem_iff.mpr (name_mem_firstOfEachName h)

end Midi

end LeadSheet
