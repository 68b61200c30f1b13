import LeadSheet.Proofs.Json.Names
import LeadSheet.Proofs.Schema.Search
import LeadSheet.Schema.Gate

/-!
# No version slips through

Whether a document is let in is asked of its version, and the answer depends on what is asked for:
a strict check refuses what does not load as it is, a migrating one brings it to the current version
or fails, and one that does neither lets everything in and warns (`letIn_gated`).

Migrations are what users register, so little can be relied on: a migration may give up, and it may
do what it likes to a document, but when it returns one it has written the version it leads to
(`Migration.WritesTarget`). That is enough. A chain ends with a migration to the version asked for,
so what comes out of it names that version, whatever the migrations before have done
(`version?_run`).
-/

namespace LeadSheet.Schema

/-! ## Migrations -/

namespace Migration

/-- A migration that gives up or returns a document of the version it leads to. -/
def WritesTarget (m : Migration) : Prop :=
  ∀ d migrated, m.apply d = .ok migrated → migrated.version? = some m.target

theorem version?_put (fields : Json.Fields) (version : String) (standIns : List Json.Fields) :
    Document.version? ⟨fields.put "_version" (.string version), standIns⟩ = some version := by
  rw [Document.version?, Json.get?_put, if_pos rfl]

theorem writesTarget_patch (source target : String) (fields : Json.Fields) :
    (patch source target fields).WritesTarget := by
  rintro d _ ⟨⟩
  exact version?_put _ _ _

theorem writesTarget_failing (source target message : String) :
    (failing source target message).WritesTarget :=
  nofun

theorem writesTarget_legacy : legacy.WritesTarget := by
  intro d migrated h
  unfold legacy at h
  dsimp only at h
  split at h <;>
  · obtain rfl := Except.ok.inj h
    exact version?_put _ _ _

end Migration

namespace Registry

variable {registry : Registry} {d : Document}

/-- Takes a document through migrations, one after the other, until one of them gives up. -/
def run (path : List Migration) (d : Document) : Except MigrationError Document :=
  path.foldlM (fun d m => m.apply d) d

theorem migrate_eq (registry : Registry) (d : Document) (target : String) :
    registry.migrate d target
      = if d.version = target then .ok d
        else (registry.findPath d.version target).bind fun path => run path d := rfl

/-- What comes out of a chain names the version the chain leads to. -/
theorem version?_run (hwrites : ∀ m ∈ registry, m.WritesTarget) {source target : String}
    {positions : List Nat} (hchain : Chain registry source positions target)
    (hne : source ≠ target) {migrated : Document}
    (h : run (registry.migrationsAt positions) d = .ok migrated) :
    migrated.version? = some target := by
  cases hchain with
  | nil => exact absurd rfl hne
  | @concat positions position m _ hm =>
    rw [migrationsAt_concat hm, run, List.foldlM_append] at h
    -- what the migrations before have done does not matter: the last one writes the version
    cases hbefore : run (registry.migrationsAt positions) d with
    | error cause =>
      rw [run] at hbefore
      rw [hbefore] at h
      cases h
    | ok before =>
      rw [run] at hbefore
      rw [hbefore] at h
      exact hwrites m (List.mem_of_getElem? hm) before migrated
        ((bind_pure (m.apply before)).symm.trans h)

/-- A document comes to a version by the least chain that leads there, or not at all. -/
theorem migrate_cases (hwrites : ∀ m ∈ registry, m.WritesTarget) {target : String}
    (hne : d.version ≠ target) :
    (∃ positions, Least registry d.version positions target ∧
      registry.migrate d target = run (registry.migrationsAt positions) d ∧
      ∀ migrated, registry.migrate d target = .ok migrated → migrated.version? = some target) ∨
    (∀ positions, ¬Chain registry d.version positions target) ∧
      registry.migrate d target = .error (.noPath d.version target registry.steps) := by
  rw [migrate_eq, if_neg hne]
  rcases findPath_eq registry d.version target with ⟨positions, hleast, hpath⟩ | ⟨hnone, hpath⟩
  · rw [hpath]
    exact .inl ⟨positions, hleast, rfl, fun migrated h => version?_run hwrites hleast.chain hne h⟩
  · rw [hpath]
    exact .inr ⟨hnone, rfl⟩

end Registry

/-! ## The check -/

/-- Whether a document loads as it is. -/
def Document.Fits (d : Document) : Prop :=
  compatibility d.version currentVersion = .compatible

theorem fits_of_version? {d : Document} (h : d.version? = some currentVersion) : d.Fits := by
  have hcurrent : compatibility currentVersion currentVersion = .compatible := by
    decide +kernel
  rw [Document.Fits, Document.version, h]
  exact hcurrent

theorem version?_of_version {d : Document} (h : d.version = currentVersion) :
    d.version? = some currentVersion := by
  rw [Document.version] at h
  cases hversion : d.version? with
  | none =>
    rw [hversion] at h
    exact absurd h (by decide)
  | some version =>
    rw [hversion] at h
    exact congrArg some h

section

variable {registry : Registry} {options : GateOptions} {d : Document}

/-- A document that loads as it is is let in, and migrated at most. -/
theorem letIn_of_fits (h : d.Fits) :
    letIn registry options d
      = if options.migrate && d.version ≠ currentVersion
            && registry.hasPath d.version currentVersion then migrateToCurrent registry d
        else .ok ⟨d, none⟩ := by
  have hreason :
      (compatibility d.version currentVersion).reason? d.version currentVersion = none := by
    rw [show compatibility d.version currentVersion = .compatible from h]
    rfl
  unfold letIn
  dsimp only
  rw [hreason]

/-- A document that does not is refused, migrated, or let in with a warning. -/
theorem exists_letIn_of_not_fits (h : ¬d.Fits) :
    ∃ reason, ∀ (registry : Registry) (options : GateOptions), letIn registry options d
      = if options.strict then .error (.incompatible d.version reason)
        else if options.migrate then migrateToCurrent registry d
        else .ok ⟨d, some (versionWarning d.version reason)⟩ := by
  obtain ⟨reason, hreason⟩ : ∃ reason,
      (compatibility d.version currentVersion).reason? d.version currentVersion = some reason := by
    cases hversion : compatibility d.version currentVersion with
    | compatible => exact absurd hversion h
    | newer => exact ⟨_, rfl⟩
    | outdated => exact ⟨_, rfl⟩
  refine ⟨reason, fun registry options => ?_⟩
  unfold letIn
  dsimp only
  rw [hreason]

/-- What the migrating check does with a document that is not of the current version. -/
theorem migrateToCurrent_cases (hwrites : ∀ m ∈ registry, m.WritesTarget)
    (hne : d.version ≠ currentVersion) :
    (∃ migrated, migrateToCurrent registry d = .ok ⟨migrated, none⟩ ∧
      migrated.version? = some currentVersion) ∨
    ∃ cause, migrateToCurrent registry d = .error (.migrationFailed cause) ∧
      ((∀ positions, ¬registry.Chain d.version positions currentVersion) ∨
        ∃ positions, registry.Least d.version positions currentVersion ∧
          Registry.run (registry.migrationsAt positions) d = .error cause) := by
  unfold migrateToCurrent
  rcases Registry.migrate_cases hwrites hne with
    ⟨positions, hleast, hrun, hversion⟩ | ⟨hnone, hfail⟩
  · cases hmigrate : registry.migrate d currentVersion with
    | ok migrated => exact .inl ⟨migrated, rfl, hversion migrated hmigrate⟩
    | error cause =>
      exact .inr ⟨cause, rfl, .inr ⟨positions, hleast, hrun.symm.trans hmigrate⟩⟩
  · rw [hfail]
    exact .inr ⟨_, rfl, .inl hnone⟩

/-- The strict check: what does not load as it is is refused, whatever is registered. -/
theorem letIn_strict (hstrict : options.strict = true) :
    ((∃ version reason, letIn registry options d = .error (.incompatible version reason)) ↔
      ¬d.Fits) ∧
    (¬d.Fits → ∃ reason, ∀ registered,
      letIn registered options d = .error (.incompatible d.version reason)) := by
  have hrefused : ¬d.Fits → ∃ reason, ∀ registered,
      letIn registered options d = .error (.incompatible d.version reason) := fun h => by
    obtain ⟨reason, hreason⟩ := exists_letIn_of_not_fits h
    exact ⟨reason, fun registered => (hreason registered options).trans (if_pos hstrict)⟩
  refine ⟨⟨?_, fun h => ?_⟩, hrefused⟩
  · rintro ⟨version, reason, hletIn⟩ hfits
    rw [letIn_of_fits hfits] at hletIn
    unfold migrateToCurrent at hletIn
    split at hletIn
    · split at hletIn <;> cases hletIn
    · cases hletIn
  · obtain ⟨reason, hreason⟩ := hrefused h
    exact ⟨_, reason, hreason registry⟩

/-- The migrating check: what is let in is of the current version, or as it was. -/
theorem letIn_migrating (hwrites : ∀ m ∈ registry, m.WritesTarget) :
    (∃ cause, letIn registry ⟨false, true⟩ d = .error (.migrationFailed cause) ∧
      (¬d.Fits ∧ (∀ positions, ¬registry.Chain d.version positions currentVersion) ∨
        ∃ positions, registry.Least d.version positions currentVersion ∧
          Registry.run (registry.migrationsAt positions) d = .error cause)) ∨
    ∃ admitted, letIn registry ⟨false, true⟩ d = .ok ⟨admitted, none⟩ ∧
      ((¬d.Fits ∨ ∃ positions, registry.Chain d.version positions currentVersion) ∧
          admitted.version? = some currentVersion ∨
        d.Fits ∧ (∀ positions, ¬registry.Chain d.version positions currentVersion) ∧
          admitted = d) := by
  by_cases hcurrent : d.version = currentVersion
  · have hversion := version?_of_version hcurrent
    refine .inr ⟨d, ?_, .inl ⟨?_, hversion⟩⟩
    · exact (letIn_of_fits (fits_of_version? hversion)).trans (if_neg (by simp [hcurrent]))
    · rw [hcurrent]
      exact .inr ⟨[], .nil⟩
  by_cases hmust : ¬d.Fits ∨ ∃ positions, registry.Chain d.version positions currentVersion
  · have hletIn : letIn registry ⟨false, true⟩ d = migrateToCurrent registry d := by
      by_cases hfits : d.Fits
      · have hpath := Registry.hasPath_iff.mpr (hmust.resolve_left (not_not_intro hfits))
        exact (letIn_of_fits hfits).trans (if_pos (by simp [hcurrent, hpath]))
      · obtain ⟨reason, hreason⟩ := exists_letIn_of_not_fits hfits
        exact hreason registry ⟨false, true⟩
    rw [hletIn]
    rcases migrateToCurrent_cases hwrites hcurrent with
      ⟨migrated, hok, hversion⟩ | ⟨cause, herror, hcause⟩
    · exact .inr ⟨migrated, hok, .inl ⟨hmust, hversion⟩⟩
    · refine .inl ⟨cause, herror, hcause.imp_left fun hnone => ⟨?_, hnone⟩⟩
      exact hmust.resolve_right fun ⟨positions, hchain⟩ => hnone positions hchain
  · obtain ⟨hfits, hnone⟩ := not_or.mp hmust
    have hpath := Bool.eq_false_iff.mpr (mt Registry.hasPath_iff.mp hnone)
    refine .inr ⟨d, (letIn_of_fits (not_not.mp hfits)).trans (if_neg (by simp [hpath])), ?_⟩
    exact .inr ⟨not_not.mp hfits, fun positions hchain => hnone ⟨positions, hchain⟩, rfl⟩

/-- The check that does neither: everything is let in, and what does not load as it is gets a
warning. -/
theorem letIn_lenient :
    ∃ warning?, letIn registry ⟨false, false⟩ d = .ok ⟨d, warning?⟩ ∧
      (warning?.isSome = true ↔ ¬d.Fits) := by
  by_cases hfits : d.Fits
  · exact ⟨none, letIn_of_fits hfits, iff_of_false nofun (not_not_intro hfits)⟩
  · obtain ⟨reason, hreason⟩ := exists_letIn_of_not_fits hfits
    exact ⟨_, hreason registry ⟨false, false⟩, iff_of_true rfl hfits⟩

end

/-- **The gate.** Let every registered migration give up or write the version it leads to. The
strict check refuses a document if and only if its version does not load as it is, whatever
migrations are registered. The migrating check fails, and says that the migration failed, only if
the version does not load and no chain leads from it to the current one, or if a migration of the
least chain gives up; else it lets in, without a warning, a document of the current version if it
was given one that does not load or if there is a chain, and else the document as it is. The check
that does neither lets the document in as it is, and warns if and only if it does not load. -/
theorem letIn_gated {registry : Registry} (hwrites : ∀ m ∈ registry, m.WritesTarget)
    (d : Document) :
    (∀ options : GateOptions, options.strict = true →
      ((∃ version reason, letIn registry options d = .error (.incompatible version reason)) ↔
        compatibility d.version currentVersion ≠ .compatible) ∧
      (compatibility d.version currentVersion ≠ .compatible → ∃ reason, ∀ registered,
        letIn registered options d = .error (.incompatible d.version reason))) ∧
    ((∃ cause, letIn registry ⟨false, true⟩ d = .error (.migrationFailed cause) ∧
        (GateError.migrationFailed cause).message = "Migration failed: " ++ cause.message ∧
        (compatibility d.version currentVersion ≠ .compatible ∧
            (∀ positions, ¬registry.Chain d.version positions currentVersion) ∨
          ∃ positions, registry.Least d.version positions currentVersion ∧
            Registry.run (registry.migrationsAt positions) d = .error cause)) ∨
      ∃ admitted, letIn registry ⟨false, true⟩ d = .ok ⟨admitted, none⟩ ∧
        compatibility admitted.version currentVersion = .compatible ∧
        ((compatibility d.version currentVersion ≠ .compatible ∨
              ∃ positions, registry.Chain d.version positions currentVersion) ∧
            admitted.version? = some currentVersion ∨
          compatibility d.version currentVersion = .compatible ∧
            (∀ positions, ¬registry.Chain d.version positions currentVersion) ∧
            admitted = d)) ∧
    ∃ warning?, letIn registry ⟨false, false⟩ d = .ok ⟨d, warning?⟩ ∧
      (warning?.isSome = true ↔ compatibility d.version currentVersion ≠ .compatible) := by
  refine ⟨fun options hstrict => letIn_strict hstrict, ?_, letIn_lenient⟩
  rcases letIn_migrating hwrites with ⟨cause, herror, hcause⟩ | ⟨admitted, hok, hadmitted⟩
  · exact .inl ⟨cause, herror, rfl, hcause⟩
  · refine .inr ⟨admitted, hok, ?_, hadmitted⟩
    rcases hadmitted with ⟨-, hversion⟩ | ⟨hfits, -, rfl⟩
    · exact fits_of_version? hversion
    · exact hfits

/-- Migrations that bring side releases back to the current version, and one that gives up. -/
def sideReleases : Registry :=
  [.legacy, .patch "1.0" "1.0.5" [], .failing "0.9.0" "1.0.0" "too old", .patch "1.0.5" "1.0.0" []]

/-- A document of a side release, which would load as it is. -/
def sideReleased : Document where
  fields := [("_version", .string "1.0"), ("title", .string "Aside")]

theorem letIn_gated_sideReleased :
    (∀ m ∈ sideReleases, m.WritesTarget) ∧
      (¬∃ version reason, letIn sideReleases ⟨true, true⟩ sideReleased
        = .error (.incompatible version reason)) ∧
      (∃ admitted, letIn sideReleases ⟨false, true⟩ sideReleased = .ok ⟨admitted, none⟩ ∧
        admitted.version? = some currentVersion) ∧
      letIn sideReleases ⟨false, false⟩ sideReleased = .ok ⟨sideReleased, none⟩ := by
  have hwrites : ∀ m ∈ sideReleases, m.WritesTarget := by
    simp only [sideReleases, List.forall_mem_cons, List.not_mem_nil, false_implies, implies_true,
      and_true]
    exact ⟨Migration.writesTarget_legacy, Migration.writesTarget_patch _ _ _,
      Migration.writesTarget_failing _ _ _, Migration.writesTarget_patch _ _ _⟩
  have hfits : compatibility sideReleased.version currentVersion = .compatible := by
    decide +kernel
  have hmigrates : (letIn sideReleases ⟨false, true⟩ sideReleased).isOk = true := by
    decide +kernel
  have hfirst : sideReleases.Chain sideReleased.version ([] ++ [1]) "1.0.5" :=
    .concat (m := .patch "1.0" "1.0.5" []) .nil rfl
  have hchain : sideReleases.Chain sideReleased.version ([] ++ [1] ++ [3]) currentVersion :=
    .concat (m := .patch "1.0.5" "1.0.0" []) hfirst rfl
  obtain ⟨hstrict, hmigrating, warning?, hlenient, hwarns⟩ := letIn_gated hwrites sideReleased
  refine ⟨hwrites, fun hrefused => (hstrict ⟨true, true⟩ rfl).1.mp hrefused hfits, ?_, ?_⟩
  · rcases hmigrating with ⟨cause, herror, -⟩ | ⟨admitted, hok, -, ⟨-, hversion⟩ | ⟨-, hnone, -⟩⟩
    · rw [herror] at hmigrates
      cases hmigrates
    · exact ⟨admitted, hok, hversion⟩
    · exact absurd hchain (hnone _)
  · cases warning? with
    | none => exact hlenient
    | some warning => exact absurd hfits (hwarns.mp rfl)

end LeadSheet.Schema
