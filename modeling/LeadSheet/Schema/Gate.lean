import LeadSheet.Schema.Migration

/-!
# Letting documents in

Before a document is read its version is looked at. A version that does not load as it is gets the
document refused (if the check is strict), migrated (if that is asked for), or let in with a
warning. A version that does load is still migrated, if that is asked for and there is a way, so
that later reading meets the current version.
-/

namespace LeadSheet.Schema

/-- What is asked of the check. -/
structure GateOptions where
  /-- Whether other versions are refused. -/
  strict : Bool := false
  /-- Whether other versions are migrated. -/
  migrate : Bool := false
  deriving DecidableEq, Repr

/-- Why a document is not let in. -/
inductive GateError where
  /-- Its version does not load as it is. -/
  | incompatible (version : String) (reason : String)
  /-- Its migration failed. -/
  | migrationFailed (cause : MigrationError)
  deriving DecidableEq, Repr

/-- The message of an error. -/
def GateError.message : GateError → String
  | incompatible _ reason => reason
  | migrationFailed cause => "Migration failed: " ++ cause.message

/-- A document that was let in, perhaps with a warning. -/
structure Admitted where
  document : Document
  warning? : Option String

/-- Brings a document to the current version. -/
def migrateToCurrent (registry : Registry) (d : Document) : Except GateError Admitted :=
  match registry.migrate d currentVersion with
  | .ok migrated => .ok ⟨migrated, none⟩
  | .error cause => .error (.migrationFailed cause)

/-- The warning with which another version is let in. -/
def versionWarning (version reason : String) : String :=
  "[SongSketch] Loading document with version " ++ version ++ ", library is " ++ currentVersion
    ++ ". " ++ reason

/-- Lets a document in, or says why not. -/
def letIn (registry : Registry) (options : GateOptions) (d : Document) :
    Except GateError Admitted :=
  let version := d.version
  match (compatibility version currentVersion).reason? version currentVersion with
  | some reason =>
    if options.strict then .error (.incompatible version reason)
    else if options.migrate then migrateToCurrent registry d
    else .ok ⟨d, some (versionWarning version reason)⟩
  | none =>
    if options.migrate && version ≠ currentVersion && registry.hasPath version currentVersion then
      migrateToCurrent registry d
    else .ok ⟨d, none⟩

end LeadSheet.Schema
