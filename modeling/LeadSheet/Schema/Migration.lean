import LeadSheet.Json.Value
import LeadSheet.Schema.Version

/-!
# Migrations

A migration turns a document of one version into one of another. A registry lists the migrations
there are, and a document is brought to a version by the shortest chain of them, found by searching
in breadth; of two chains of one length the one whose migrations were registered earlier wins.

A document is an object. One kind of field needs care: unversioned files may give a section the
field `__proto__`, and loading such a section makes the fields of that object stand in for those
the section itself does not have. They are no fields of the section and are not written with it, so
they are kept beside the document's fields.
-/

namespace LeadSheet.Schema

open Json (Fields)

/-- A document on its way through migrations. -/
structure Document where
  fields : Fields
  /-- For each section, by position, the fields that stand in for missing ones. -/
  standIns : List Fields := []
  deriving Inhabited

namespace Document

/-- The version a document names. -/
def version? (d : Document) : Option String :=
  match d.fields.get? "_version" with
  | some (.string version) => some version
  | _ => none

/-- The version of a document. -/
def version (d : Document) : String := d.version?.getD legacyVersion

end Document

/-- Why a document could not be migrated. -/
inductive MigrationError where
  /-- No chain of migrations leads from one version to the other. `available` lists those there
  are. -/
  | noPath (source target : String) (available : List (String × String))
  /-- A migration gave up. -/
  | failed (message : String)
  deriving DecidableEq, Repr

/-- A migration as text. -/
def stepText (step : String × String) : String := step.1 ++ "->" ++ step.2

/-- The message of an error. -/
def MigrationError.message : MigrationError → String
  | noPath source target available =>
    "No migration path from " ++ source ++ " to " ++ target ++ ". Available migrations: "
      ++ ", ".intercalate (available.map stepText)
  | failed message => message

/-- A migration from one version to another. -/
structure Migration where
  source : String
  target : String
  apply : Document → Except MigrationError Document

namespace Migration

/-- A migration that puts fields over those of a document, and the new version over them. -/
def patch (source target : String) (fields : Fields) : Migration where
  source
  target
  apply d :=
    let patched := (d.fields.putAll fields).put "_version" (.string target)
    .ok ⟨patched, if (fields.get? "sections").isSome then [] else d.standIns⟩

/-- A migration that gives up with a message. -/
def failing (source target message : String) : Migration :=
  ⟨source, target, fun _ => .error (.failed message)⟩

/-! ## The migration of unversioned documents -/

/-- The field of a section whose value stands in for missing fields. -/
def standInField : String := "__proto__"

/-- Whether a field of an unversioned section is dropped: unversioned files write `null` for a key,
a tempo or drums that are not there. -/
def isDropped (field : String × Json) : Bool :=
  match field with
  | (name, .null) => name = "key" || name = "tempo" || name = "drums"
  | _ => false

/-- The fields of an unversioned section without the dropped ones. -/
def keptFields (fields : Fields) : Fields :=
  fields.filter fun field => !isDropped field && field.1 ≠ standInField

/-- An unversioned section without the dropped fields. -/
def migrateSection : Json → Json
  | .object fields => .object (keptFields fields)
  | other => other

/-- The fields that stand in for those an unversioned section does not have. -/
def standInsOf : Json → Fields
  | .object fields =>
    match Json.Fields.get? fields standInField with
    | some (Json.object others) => others
    | _ => []
  | _ => []

/-- The migration of unversioned documents. -/
def legacy : Migration where
  source := legacyVersion
  target := "1.0.0"
  apply d :=
    match d.fields.get? "sections" with
    | some (.array sections) =>
      let fields := d.fields.put "sections" (.array (sections.map migrateSection))
      .ok ⟨fields.put "_version" (.string "1.0.0"), sections.map standInsOf⟩
    | _ => .ok ⟨d.fields.put "_version" (.string "1.0.0"), []⟩

end Migration

/-! ## Registries -/

/-- The migrations there are, in the order in which they were registered. -/
abbrev Registry := List Migration

namespace Registry

/-- The registry of the library. -/
def standard : Registry := [Migration.legacy]

/-- The migrations as pairs of versions. -/
def steps (registry : Registry) : List (String × String) :=
  registry.map fun m => (m.source, m.target)

/-- A version that the search has reached, and the chain that leads there. -/
structure Reached where
  version : String
  path : List Migration

/-- The versions one step further that have not been reached yet, each with its chain, and all
versions reached with them. -/
def expand (here : Reached) : List Migration → List String → List Reached × List String
  | [], visited => ([], visited)
  | m :: rest, visited =>
    if m.source = here.version ∧ m.target ∉ visited then
      let (reached, visited) := expand here rest (visited ++ [m.target])
      (⟨m.target, here.path ++ [m]⟩ :: reached, visited)
    else expand here rest visited

/-- Searches in breadth from a queue of versions. Each migration is taken at most once, since its
target is then reached; this bounds the number of steps. -/
def search (registry : Registry) (target : String) :
    Nat → List Reached → List String → Option (List Migration)
  | 0, _, _ => none
  | _ + 1, [], _ => none
  | steps + 1, here :: queue, visited =>
    if here.version = target then some here.path
    else
      let (reached, visited) := expand here registry visited
      search registry target steps (queue ++ reached) visited

/-- The shortest chain of migrations from one version to another. -/
def path? (registry : Registry) (source target : String) : Option (List Migration) :=
  search registry target (registry.length + 1) [⟨source, []⟩] [source]

/-- The shortest chain of migrations from one version to another, or the complaint that there is
none. -/
def findPath (registry : Registry) (source target : String) :
    Except MigrationError (List Migration) :=
  match registry.path? source target with
  | some path => .ok path
  | none => .error (.noPath source target registry.steps)

/-- Whether a chain of migrations leads from one version to another. -/
def hasPath (registry : Registry) (source target : String) : Bool :=
  source = target || (registry.path? source target).isSome

/-- Brings a document to a version. -/
def migrate (registry : Registry) (d : Document) (target : String) :
    Except MigrationError Document :=
  if d.version = target then .ok d
  else (registry.findPath d.version target).bind fun path =>
    path.foldlM (fun d m => m.apply d) d

end Registry

end LeadSheet.Schema
