import LeadSheet.Schema.Migration
import Mathlib.Data.List.Lex
import Mathlib.Data.List.Nodup
import Mathlib.Data.Prod.Lex
import Mathlib.Order.Basic

/-!
# The search for a chain of migrations

A chain of migrations is given by the positions at which its migrations are registered. Chains are
compared by their length first, and chains of one length by the positions, from the first one on
(`rank`). Which chain the search finds is nowhere said in it; it follows from the order of the
queue. The queue holds versions with the least chains that lead there, in the order of these chains
(`Frontier`), and every chain that leaves the versions that are done with passes one that is queued
(`Frontier.reaches`). So what stands at the head of the queue is least among all that is still to
come, and a version that is met for the first time from there is met by its least chain.

The number of steps that bounds the search is never what ends it (`Ends`, `ends_search`): a
migration is taken only to a version that has not been reached.
-/

namespace LeadSheet.Schema.Registry

/-! ## Chains -/

/-- The migrations registered at these positions lead, one after the other, from one version to
another. -/
inductive Chain (registry : Registry) (source : String) : List Nat → String → Prop where
  | nil : Chain registry source [] source
  | concat {positions : List Nat} {position : Nat} {m : Migration} :
      Chain registry source positions m.source → registry[position]? = some m →
      Chain registry source (positions ++ [position]) m.target

/-- The migrations registered at these positions. -/
def migrationsAt (registry : Registry) (positions : List Nat) : List Migration :=
  positions.filterMap (registry[·]?)

/-- What chains are compared by: their length, and then their positions. -/
def rank (positions : List Nat) : ℕ ×ₗ List ℕ := toLex (positions.length, positions)

/-- A chain that comes before all others that lead where it leads. -/
structure Least (registry : Registry) (source : String) (positions : List Nat) (target : String) :
    Prop where
  chain : Chain registry source positions target
  le : ∀ others, Chain registry source others target → rank positions ≤ rank others

theorem migrationsAt_concat {registry : Registry} {position : Nat} {m : Migration}
    (h : registry[position]? = some m) (positions : List Nat) :
    registry.migrationsAt (positions ++ [position]) = registry.migrationsAt positions ++ [m] := by
  simp [migrationsAt, List.filterMap_append, h]

/-- Where a chain leads is told by its positions. -/
theorem Chain.target_unique {registry : Registry} {source v w : String} {positions : List Nat}
    (hv : Chain registry source positions v) (hw : Chain registry source positions w) : v = w := by
  cases hv with
  | nil =>
    generalize hpositions : ([] : List Nat) = positions at hw
    cases hw with
    | nil => rfl
    | concat => simp at hpositions
  | @concat positions position m hchain hm =>
    generalize hpositions : positions ++ [position] = all at hw
    cases hw with
    | nil => simp at hpositions
    | concat _ hm' =>
      obtain ⟨-, hposition⟩ := List.append_inj' hpositions rfl
      obtain rfl := List.singleton_inj.mp hposition
      rw [hm] at hm'
      exact congrArg Migration.target (Option.some.inj hm')

/-! ### The order of chains -/

theorem rank_le_iff {positions others : List Nat} :
    rank positions ≤ rank others ↔ positions.length < others.length ∨
      positions.length = others.length ∧ positions ≤ others :=
  Prod.Lex.toLex_le_toLex

theorem rank_lt_iff {positions others : List Nat} :
    rank positions < rank others ↔ positions.length < others.length ∨
      positions.length = others.length ∧ positions < others :=
  Prod.Lex.toLex_lt_toLex

theorem rank_injective {positions others : List Nat} (h : rank positions = rank others) :
    positions = others :=
  congrArg (fun r => (ofLex r).2) h

theorem rank_lt_concat (positions : List Nat) (position : Nat) :
    rank positions < rank (positions ++ [position]) :=
  rank_lt_iff.mpr (.inl (by simp))

theorem concat_lt_concat {positions others : List Nat} (hlength : positions.length = others.length)
    (h : positions < others) (i j : Nat) : positions ++ [i] < others ++ [j] := by
  induction positions generalizing others with
  | nil =>
    rw [List.eq_nil_of_length_eq_zero hlength.symm] at h
    exact absurd h (List.lt_irrefl _)
  | cons a positions ih =>
    cases others with
    | nil => cases hlength
    | cons b others =>
      rw [List.cons_append, List.cons_append]
      rcases List.cons_lt_cons_iff.mp h with hab | ⟨rfl, hrest⟩
      · exact List.cons_lt_cons_iff.mpr (.inl hab)
      · exact List.cons_lt_cons_iff.mpr (.inr ⟨rfl, ih (Nat.succ.inj hlength) hrest⟩)

/-- Chains that go on by one migration stay in order. -/
theorem rank_concat_lt_concat {positions others : List Nat} (h : rank positions < rank others)
    (i j : Nat) : rank (positions ++ [i]) < rank (others ++ [j]) := by
  rw [rank_lt_iff, List.length_append, List.length_append]
  rcases rank_lt_iff.mp h with hshorter | ⟨hlength, hbefore⟩
  · exact .inl (Nat.add_lt_add_right hshorter 1)
  · exact .inr ⟨congrArg (· + 1) hlength, concat_lt_concat hlength hbefore i j⟩

theorem rank_concat_lt {i j : Nat} (h : i < j) (positions : List Nat) :
    rank (positions ++ [i]) < rank (positions ++ [j]) := by
  refine rank_lt_iff.mpr (.inr ⟨by simp, ?_⟩)
  exact List.append_left_lt (List.cons_lt_cons_iff.mpr (.inl h))

/-! ## One version is expanded -/

/-- What is found from a version: for each target that was not reached before, the first of the
migrations that lead there. Migrations come with their positions. -/
structure Finds (here : Reached) (migrations : List (Migration × Nat)) (visited : List String)
    (found : List (Migration × Nat)) : Prop where
  sublist : found.Sublist migrations
  source : ∀ step ∈ found, step.1.source = here.version
  unreached : ∀ step ∈ found, step.1.target ∉ visited
  targets_nodup : (found.map (·.1.target)).Nodup
  first : ∀ step ∈ migrations, step.1.source = here.version → step.1.target ∉ visited →
    ∃ earlier ∈ found, earlier.1.target = step.1.target ∧ earlier.2 ≤ step.2

theorem exists_finds (here : Reached) (migrations : List Migration) (start : Nat)
    (visited : List String) :
    ∃ found, Finds here (migrations.zipIdx start) visited found ∧
      expand here migrations visited
        = (found.map fun step => ⟨step.1.target, here.path ++ [step.1]⟩,
          visited ++ found.map (·.1.target)) := by
  induction migrations generalizing start visited with
  | nil => exact ⟨[], ⟨List.Sublist.refl _, by simp, by simp, by simp, by simp⟩, by simp [expand]⟩
  | cons m migrations ih =>
    by_cases htaken : m.source = here.version ∧ m.target ∉ visited
    · obtain ⟨found, hfinds, hexpand⟩ := ih (start + 1) (visited ++ [m.target])
      have hlater : ∀ step ∈ found, step.1.target ∉ visited ∧ step.1.target ≠ m.target :=
        fun step hstep => by simpa using hfinds.unreached step hstep
      refine ⟨(m, start) :: found, ⟨?_, ?_, ?_, ?_, ?_⟩, ?_⟩
      · exact hfinds.sublist.cons_cons _
      · exact List.forall_mem_cons.mpr ⟨htaken.1, hfinds.source⟩
      · exact List.forall_mem_cons.mpr ⟨htaken.2, fun step hstep => (hlater step hstep).1⟩
      · rw [List.map_cons, List.nodup_cons]
        refine ⟨fun hmem => ?_, hfinds.targets_nodup⟩
        obtain ⟨step, hstep, htarget⟩ := List.mem_map.mp hmem
        exact (hlater step hstep).2 htarget
      · refine List.forall_mem_cons.mpr ⟨fun _ _ => ?_, fun step hstep hsource hunreached => ?_⟩
        · exact ⟨(m, start), List.mem_cons_self, rfl, le_rfl⟩
        · by_cases htarget : step.1.target = m.target
          · exact ⟨(m, start), List.mem_cons_self, htarget.symm,
              Nat.le_of_succ_le (List.le_snd_of_mem_zipIdx hstep)⟩
          · obtain ⟨earlier, hearlier, h⟩ :=
              hfinds.first step hstep hsource (by simp [hunreached, htarget])
            exact ⟨earlier, List.mem_cons_of_mem _ hearlier, h⟩
      · rw [expand, if_pos htaken, hexpand]
        simp
    · obtain ⟨found, hfinds, hexpand⟩ := ih (start + 1) visited
      refine ⟨found, { hfinds with sublist := ?_, first := ?_ }, ?_⟩
      · exact hfinds.sublist.cons _
      · refine List.forall_mem_cons.mpr ⟨fun hsource hunreached => ?_, hfinds.first⟩
        exact absurd ⟨hsource, hunreached⟩ htaken
      · rw [expand, if_neg htaken, hexpand]

/-! ## The search, without a bound on its steps -/

/-- The search goes on from a queue and the versions reached until it ends with an answer. -/
inductive Ends (registry : Registry) (target : String) :
    List Reached → List String → Option (List Migration) → Prop where
  | exhausted {visited : List String} : Ends registry target [] visited none
  | found {here : Reached} {queue : List Reached} {visited : List String} :
      here.version = target → Ends registry target (here :: queue) visited (some here.path)
  | onward {here : Reached} {queue : List Reached} {visited : List String}
      {answer : Option (List Migration)} :
      here.version ≠ target →
      Ends registry target (queue ++ (expand here registry visited).1)
        (expand here registry visited).2 answer →
      Ends registry target (here :: queue) visited answer

/-- How many migrations lead to versions that have not been reached. -/
def untaken (registry : Registry) (visited : List String) : Nat :=
  registry.countP (·.target ∉ visited)

theorem untaken_concat_lt {registry : Registry} {m : Migration} (hm : m ∈ registry)
    {visited : List String} (h : m.target ∉ visited) :
    untaken registry (visited ++ [m.target]) < untaken registry visited := by
  have hmono : ∀ others : List Migration, others.countP (·.target ∉ visited ++ [m.target])
      ≤ others.countP (·.target ∉ visited) := fun others =>
    List.countP_mono_left fun other _ => by simp +contextual
  obtain ⟨before, after, rfl⟩ := List.append_of_mem hm
  have hbefore := hmono before
  have hafter := hmono after
  have htaken : m.target ∈ visited ++ [m.target] :=
    List.mem_append_right _ (List.mem_singleton_self _)
  simp only [untaken, List.countP_append, List.countP_cons, h, htaken, not_true_eq_false,
    not_false_eq_true, decide_true, decide_false, if_true, Bool.false_eq_true, if_false]
  omega

theorem length_expand_le {registry : Registry} (here : Reached) {migrations : List Migration}
    (hsub : ∀ m ∈ migrations, m ∈ registry) (visited : List String) :
    (expand here migrations visited).1.length
        + untaken registry (expand here migrations visited).2
      ≤ untaken registry visited := by
  induction migrations generalizing visited with
  | nil => simp [expand]
  | cons m migrations ih =>
    obtain ⟨hm, hsub⟩ := List.forall_mem_cons.mp hsub
    rw [expand]
    split
    · next htaken =>
      have hlater := ih hsub (visited ++ [m.target])
      have hfewer := untaken_concat_lt hm htaken.2
      simp only [List.length_cons]
      omega
    · exact ih hsub visited

/-- The bound on the number of steps is large enough: the search ends by itself. -/
theorem ends_search {registry : Registry} {target : String} {steps : Nat} {queue : List Reached}
    {visited : List String} (h : queue.length + untaken registry visited ≤ steps) :
    Ends registry target queue visited (search registry target steps queue visited) := by
  induction steps generalizing queue visited with
  | zero =>
    obtain rfl : queue = [] := List.eq_nil_of_length_eq_zero (by omega)
    exact .exhausted
  | succ steps ih =>
    cases queue with
    | nil => exact .exhausted
    | cons here queue =>
      rw [search]
      split
      · next hfound => exact .found hfound
      · next hother =>
        refine .onward hother (ih ?_)
        have hless := length_expand_le here (fun _ hm => hm : ∀ m ∈ registry, m ∈ registry) visited
        rw [List.length_cons] at h
        rw [List.length_append]
        omega

/-! ## What the queue holds -/

/-- A version that the search has reached, and the positions of the chain that leads there. -/
structure Place where
  version : String
  positions : List Nat

/-- What the search keeps of a place. -/
def Place.reached (registry : Registry) (p : Place) : Reached :=
  ⟨p.version, registry.migrationsAt p.positions⟩

/-- A version that the search is done with: it is not the one looked for, and all that it leads to
has been reached. -/
def Settled (registry : Registry) (target : String) (visited : List String) (version : String) :
    Prop :=
  version ≠ target ∧ ∀ m ∈ registry, m.source = version → m.target ∈ visited

/-- The search between two steps. The queue is sorted, and no chain in it goes on from one that is
still in it: `parents` keeps what is appended behind all that is there. -/
structure Frontier (registry : Registry) (source target : String) (queue : List Place)
    (visited : List String) : Prop where
  least : ∀ p ∈ queue, Least registry source p.positions p.version
  sorted : queue.Pairwise fun p q => rank p.positions < rank q.positions
  parents : ∀ p ∈ queue, ∀ q ∈ queue, q.positions ≠ [] →
    rank q.positions.dropLast < rank p.positions
  started : source ∈ visited
  open_or_settled : ∀ version ∈ visited,
    (∃ p ∈ queue, p.version = version) ∨ Settled registry target visited version

theorem frontier_start (registry : Registry) (source target : String) :
    Frontier registry source target [⟨source, []⟩] [source] where
  least p hp := by
    obtain rfl := List.mem_singleton.mp hp
    refine ⟨.nil, fun others _ => rank_le_iff.mpr ?_⟩
    cases others with
    | nil => exact .inr ⟨rfl, le_rfl⟩
    | cons => exact .inl (Nat.succ_pos _)
  sorted := List.pairwise_singleton _ _
  parents p _ q hq hne := by
    obtain rfl := List.mem_singleton.mp hq
    exact absurd rfl hne
  started := List.mem_singleton_self source
  open_or_settled version hversion := by
    obtain rfl := List.mem_singleton.mp hversion
    exact .inl ⟨_, List.mem_singleton_self _, rfl⟩

namespace Frontier

variable {registry : Registry} {source target : String} {queue : List Place}
  {visited : List String}

/-- Every chain ends at a version that the search is done with, or passes one that is queued with a
chain no later than it. -/
theorem reaches (h : Frontier registry source target queue visited) {positions : List Nat}
    {version : String} (hchain : Chain registry source positions version) :
    (version ∈ visited ∧ Settled registry target visited version) ∨
      ∃ p ∈ queue, rank p.positions ≤ rank positions := by
  have hvisited : ∀ {positions version}, Chain registry source positions version →
      version ∈ visited → (version ∈ visited ∧ Settled registry target visited version) ∨
        ∃ p ∈ queue, rank p.positions ≤ rank positions := by
    intro positions version hchain hversion
    rcases h.open_or_settled version hversion with ⟨p, hp, rfl⟩ | hsettled
    · exact .inr ⟨p, hp, (h.least p hp).le positions hchain⟩
    · exact .inl ⟨hversion, hsettled⟩
  induction hchain with
  | nil => exact hvisited .nil h.started
  | @concat positions position m hchain hm ih =>
    rcases ih with ⟨-, -, hsettled⟩ | ⟨p, hp, hle⟩
    · exact hvisited (hchain.concat hm) (hsettled m (List.mem_of_getElem? hm) rfl)
    · exact .inr ⟨p, hp, hle.trans (rank_lt_concat positions position).le⟩

theorem not_chain_of_nil (h : Frontier registry source target [] visited) (positions : List Nat) :
    ¬Chain registry source positions target := by
  intro hchain
  rcases h.reaches hchain with ⟨-, hother, -⟩ | ⟨p, hp, -⟩
  · exact hother rfl
  · cases hp

section

variable {here : Place} (h : Frontier registry source target (here :: queue) visited)

include h

theorem head_le {p : Place} (hp : p ∈ here :: queue) :
    rank here.positions ≤ rank p.positions := by
  rcases List.mem_cons.mp hp with rfl | hp
  · exact le_rfl
  · exact (List.rel_of_pairwise_cons h.sorted hp).le

/-- A version that is met for the first time is met by its least chain. -/
theorem least_found {found : List (Migration × Nat)}
    (hfinds : Finds (here.reached registry) registry.zipIdx visited found)
    {step : Migration × Nat} (hstep : step ∈ found) :
    Least registry source (here.positions ++ [step.2]) step.1.target := by
  have hposition : ∀ {step}, step ∈ found → registry[step.2]? = some step.1 := fun hstep =>
    List.mem_zipIdx_iff_getElem?.mp (hfinds.sublist.subset hstep)
  have hhere := (h.least here List.mem_cons_self).chain
  have hchain : Chain registry source (here.positions ++ [step.2]) step.1.target := by
    refine .concat ?_ (hposition hstep)
    rw [hfinds.source step hstep]
    exact hhere
  refine ⟨hchain, fun others hothers => ?_⟩
  have hunreached := hfinds.unreached step hstep
  generalize hversion : step.1.target = version at hothers
  cases hothers with
  | nil => exact absurd (hversion ▸ h.started) hunreached
  | @concat others position m hothers hm =>
    have hmem : m ∈ registry := List.mem_of_getElem? hm
    rcases h.reaches hothers with ⟨-, -, hsettled⟩ | ⟨p, hp, hle⟩
    · exact absurd (hversion ▸ hsettled m hmem rfl) hunreached
    · rcases ((h.head_le hp).trans hle).lt_or_eq with hlt | heq
      · exact (rank_concat_lt_concat hlt step.2 position).le
      · -- both go on from the version that is expanded, so the earlier migration is the one found
        obtain rfl := rank_injective heq
        have hsource : m.source = here.version := hothers.target_unique hhere
        obtain ⟨earlier, hearlier, htarget, hle⟩ := hfinds.first (m, position)
          (List.mem_zipIdx_iff_getElem?.mpr hm) hsource (hversion ▸ hunreached)
        obtain rfl : earlier = step :=
          List.inj_on_of_nodup_map hfinds.targets_nodup hearlier hstep (htarget.trans hversion.symm)
        rcases hle.lt_or_eq with hlt | heq
        · exact (rank_concat_lt hlt here.positions).le
        · exact le_of_eq (congrArg (fun i => rank (here.positions ++ [i])) heq)

/-- One step of the search. -/
theorem step (hother : here.version ≠ target) {found : List (Migration × Nat)}
    (hfinds : Finds (here.reached registry) registry.zipIdx visited found) :
    Frontier registry source target
      (queue ++ found.map fun step => ⟨step.1.target, here.positions ++ [step.2]⟩)
      (visited ++ found.map (·.1.target)) where
  least p hp := by
    rcases List.mem_append.mp hp with hp | hp
    · exact h.least p (List.mem_cons_of_mem _ hp)
    · obtain ⟨step, hstep, rfl⟩ := List.mem_map.mp hp
      exact h.least_found hfinds hstep
  sorted := by
    refine List.pairwise_append.mpr ⟨(List.pairwise_cons.mp h.sorted).2, ?_, ?_⟩
    · have hzip : (registry.zipIdx).Pairwise fun a b => a.2 < b.2 := by
        rw [← List.pairwise_map (R := (· < ·)) (f := Prod.snd), List.zipIdx_map_snd]
        exact List.pairwise_lt_range'
      refine List.pairwise_map.mpr ((hzip.sublist hfinds.sublist).imp fun hlt => ?_)
      exact rank_concat_lt hlt here.positions
    · -- what was queued goes on from chains before the one that is expanded, so it comes first
      intro p hp q hq
      obtain ⟨step, -, rfl⟩ := List.mem_map.mp hq
      rcases List.eq_nil_or_concat p.positions with hnil | ⟨before, last, hlast⟩
      · exact rank_lt_iff.mpr (.inl (by simp [hnil]))
      · have hparent := h.parents here List.mem_cons_self p (List.mem_cons_of_mem _ hp)
          (by simp [hlast])
        rw [hlast, List.concat_eq_append, List.dropLast_concat] at hparent
        rw [hlast, List.concat_eq_append]
        exact rank_concat_lt_concat hparent last step.2
  parents p hp q hq hne := by
    have hbehind : rank here.positions < rank p.positions := by
      rcases List.mem_append.mp hp with hp | hp
      · exact List.rel_of_pairwise_cons h.sorted hp
      · obtain ⟨step, -, rfl⟩ := List.mem_map.mp hp
        exact rank_lt_concat _ _
    rcases List.mem_append.mp hq with hq | hq
    · exact (h.parents here List.mem_cons_self q (List.mem_cons_of_mem _ hq) hne).trans hbehind
    · obtain ⟨step, -, rfl⟩ := List.mem_map.mp hq
      rwa [List.dropLast_concat]
  started := List.mem_append_left _ h.started
  open_or_settled version hversion := by
    rcases List.mem_append.mp hversion with hversion | hversion
    · rcases h.open_or_settled version hversion with ⟨p, hp, rfl⟩ | ⟨hne, hsettled⟩
      · rcases List.mem_cons.mp hp with rfl | hp
        · -- the version that is expanded is done with
          refine .inr ⟨hother, fun m hm hsource => ?_⟩
          by_cases hreached : m.target ∈ visited
          · exact List.mem_append_left _ hreached
          · obtain ⟨position, hposition⟩ := List.getElem?_of_mem hm
            obtain ⟨earlier, hearlier, htarget, -⟩ := hfinds.first (m, position)
              (List.mem_zipIdx_iff_getElem?.mpr hposition) hsource hreached
            exact List.mem_append_right _ (List.mem_map.mpr ⟨earlier, hearlier, htarget⟩)
        · exact .inl ⟨p, List.mem_append_left _ hp, rfl⟩
      · exact .inr ⟨hne, fun m hm hsource => List.mem_append_left _ (hsettled m hm hsource)⟩
    · obtain ⟨step, hstep, rfl⟩ := List.mem_map.mp hversion
      exact .inl ⟨_, List.mem_append_right _ (List.mem_map_of_mem hstep), rfl⟩

end

end Frontier

/-! ## What the search answers -/

/-- The right answer: the migrations of the least chain, or nothing if there is no chain. -/
def Answers (registry : Registry) (source target : String) : Option (List Migration) → Prop
  | some path => ∃ positions, Least registry source positions target ∧
      path = registry.migrationsAt positions
  | none => ∀ positions, ¬Chain registry source positions target

theorem Ends.answers {registry : Registry} {source target : String} {reached : List Reached}
    {visited : List String} {answer : Option (List Migration)}
    (hends : Ends registry target reached visited answer) {queue : List Place}
    (hqueue : queue.map (Place.reached registry) = reached)
    (h : Frontier registry source target queue visited) :
    Answers registry source target answer := by
  induction hends generalizing queue with
  | exhausted =>
    rw [List.map_eq_nil_iff.mp hqueue] at h
    exact h.not_chain_of_nil
  | found hfound =>
    obtain ⟨here, queue, rfl, rfl, rfl⟩ := List.map_eq_cons_iff.mp hqueue
    obtain rfl : here.version = target := hfound
    exact ⟨here.positions, h.least here List.mem_cons_self, rfl⟩
  | onward hother _ ih =>
    obtain ⟨here, queue, rfl, rfl, rfl⟩ := List.map_eq_cons_iff.mp hqueue
    obtain ⟨found, hfinds, hexpand⟩ := exists_finds (here.reached registry) registry 0 _
    rw [hexpand] at ih
    refine ih ?_ (h.step hother hfinds)
    rw [List.map_append, List.map_map]
    refine congrArg _ (List.map_congr_left fun step hstep => ?_)
    have hposition := List.mem_zipIdx_iff_getElem?.mp (hfinds.sublist.subset hstep)
    exact congrArg (Reached.mk _) (migrationsAt_concat hposition _)

theorem ends_path? (registry : Registry) (source target : String) :
    Ends registry target [⟨source, []⟩] [source] (registry.path? source target) := by
  refine ends_search ?_
  have hall : untaken registry [source] ≤ registry.length := List.countP_le_length
  rw [List.length_singleton]
  omega

theorem answers_path? (registry : Registry) (source target : String) :
    Answers registry source target (registry.path? source target) :=
  (ends_path? registry source target).answers rfl (frontier_start registry source target)

theorem exists_chain_iff {registry : Registry} {source target : String} :
    (∃ positions, Chain registry source positions target) ↔
      (registry.path? source target).isSome = true := by
  have hanswers := answers_path? registry source target
  cases hpath : registry.path? source target with
  | none =>
    rw [hpath] at hanswers
    exact ⟨fun ⟨positions, hchain⟩ => absurd hchain (hanswers positions), nofun⟩
  | some path =>
    rw [hpath] at hanswers
    obtain ⟨positions, hleast, -⟩ := hanswers
    exact ⟨fun _ => rfl, fun _ => ⟨positions, hleast.chain⟩⟩

theorem hasPath_iff {registry : Registry} {source target : String} :
    registry.hasPath source target = true
      ↔ ∃ positions, Chain registry source positions target := by
  rw [hasPath, Bool.or_eq_true, decide_eq_true_eq, ← exists_chain_iff, or_iff_right_iff_imp]
  rintro rfl
  exact ⟨[], .nil⟩

theorem findPath_eq (registry : Registry) (source target : String) :
    (∃ positions, Least registry source positions target ∧
        registry.findPath source target = .ok (registry.migrationsAt positions)) ∨
      (∀ positions, ¬Chain registry source positions target) ∧
        registry.findPath source target = .error (.noPath source target registry.steps) := by
  have hanswers := answers_path? registry source target
  unfold findPath
  cases hpath : registry.path? source target with
  | none =>
    rw [hpath] at hanswers
    exact .inr ⟨hanswers, rfl⟩
  | some path =>
    rw [hpath] at hanswers
    obtain ⟨positions, hleast, rfl⟩ := hanswers
    exact .inl ⟨positions, hleast, rfl⟩

/-- **The search finds the first of the shortest chains.** Whatever is registered, in whatever
order, the search for a chain from one version to another ends. It fails if and only if there is no
chain. Else it gives the migrations of a chain that is as short as any, and of the chains as short
as it the one whose positions come first. Whether there is a chain is told rightly, too. -/
theorem findPath_least (registry : Registry) (source target : String) :
    Ends registry target [⟨source, []⟩] [source] (registry.path? source target) ∧
    ((∃ error, registry.findPath source target = .error error) ↔
      ¬∃ positions, Chain registry source positions target) ∧
    (∀ path, registry.findPath source target = .ok path →
      ∃ positions, Chain registry source positions target ∧
        path = registry.migrationsAt positions ∧
        ∀ others, Chain registry source others target →
          positions.length < others.length ∨
            positions.length = others.length ∧ positions ≤ others) ∧
    (registry.hasPath source target = true ↔
      ∃ positions, Chain registry source positions target) := by
  refine ⟨ends_path? registry source target, ?_, ?_, hasPath_iff⟩
  · rcases findPath_eq registry source target with ⟨positions, hleast, hok⟩ | ⟨hnone, herror⟩
    · rw [hok]
      exact iff_of_false nofun (not_not_intro ⟨positions, hleast.chain⟩)
    · rw [herror]
      exact iff_of_true ⟨_, rfl⟩ fun ⟨positions, hchain⟩ => hnone positions hchain
  · intro path hpath
    rcases findPath_eq registry source target with ⟨positions, hleast, hok⟩ | ⟨-, herror⟩
    · rw [hok] at hpath
      exact ⟨positions, hleast.chain, (Except.ok.inj hpath).symm,
        fun others hothers => rank_le_iff.mp (hleast.le others hothers)⟩
    · rw [herror] at hpath
      cases hpath

/-- Of two chains of one length the one that starts with the earlier migration is found, though its
second migration is registered later. -/
example : (path? [.patch "1" "3" [], .patch "1" "2" [], .patch "2" "4" [], .patch "3" "4" [],
    .patch "4" "1" []] "1" "4").map (·.map fun m => (m.source, m.target))
      = some [("1", "3"), ("3", "4")] := by
  decide

end LeadSheet.Schema.Registry
