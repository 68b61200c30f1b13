import LeadSheet.Number.Numeral
import LeadSheet.Text.Scan

/-!
# Versions of the document format

A version is three numbers with points between them. A document of another major version cannot be
loaded as it is, nor one of a later minor version; an earlier minor version and any patch can.
-/

namespace LeadSheet.Schema

/-- The version written into documents. -/
def currentVersion : String := "1.0.0"

/-- The version of documents that do not name theirs. -/
def legacyVersion : String := "0.0.0"

/-- The numbers of a version. -/
structure VersionParts where
  major : Float
  minor : Float
  patch : Float
  deriving DecidableEq

/-- The number of a part. What is no numeral, or not finite, counts as zero. -/
def partValue (part : List Char) : Float :=
  match Numeral.standalone? part with
  | some x => if Scalar.isFinite x then x else 0
  | none => 0

/-- Reads a version; parts that are missing are zero, and further parts do not count. -/
def VersionParts.ofText (version : String) : VersionParts :=
  let parts := (Text.split '.' version.toList).map partValue
  ⟨parts.getD 0 0, parts.getD 1 0, parts.getD 2 0⟩

/-- How a document's version stands to the version that is supported. -/
inductive Compatibility where
  | compatible
  /-- Written by a later release. -/
  | newer
  /-- Of an earlier major version. -/
  | outdated
  deriving DecidableEq, Repr

/-- Compares a document's version with the one that is supported. -/
def compatibility (document supported : String) : Compatibility :=
  let d := VersionParts.ofText document
  let s := VersionParts.ofText supported
  if d.major > s.major ∨ d.major == s.major ∧ d.minor > s.minor then .newer
  else if d.major < s.major then .outdated
  else .compatible

/-- Why a version does not load as it is, if it does not. -/
def Compatibility.reason? (document supported : String) : Compatibility → Option String
  | compatible => none
  | newer => some ("Document version " ++ document ++ " is newer than library " ++ supported)
  | outdated => some ("Document version " ++ document ++ " requires migration to " ++ supported)

end LeadSheet.Schema
