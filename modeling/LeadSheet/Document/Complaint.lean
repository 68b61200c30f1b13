import LeadSheet.Schema.Gate

/-!
# What is wrong with a document

A document that does not have the form of a score is refused, with the path to the value at fault
and the rule that it breaks.
-/

namespace LeadSheet.Document

/-- A step from a value to a part of it. -/
inductive Step where
  | field (name : String)
  | item (index : Nat)
  deriving DecidableEq, Repr

/-- The way from the root of a document to a value. -/
abbrev Path := List Step

/-- A path with a step behind the text of the steps before. -/
def Step.append (before : String) : Step → String
  | field name => if before = "" then name else before ++ "." ++ name
  | item index => before ++ "[" ++ toString index ++ "]"

/-- The text of a path; the root is `$`. -/
def pathText (path : Path) : String :=
  if path = [] then "$" else path.foldl Step.append ""

/-- What a value has to be. -/
inductive Rule where
  | object
  | array
  | number
  | positiveNumber
  | string
  | versionString
  deriving DecidableEq, Repr

/-- The words for a rule. -/
def Rule.text : Rule → String
  | object => "an object"
  | array => "an array"
  | number => "a number"
  | positiveNumber => "a positive number"
  | string => "a string"
  | versionString => "a version string"

/-- A value that breaks a rule. -/
structure Complaint where
  path : Path
  rule : Rule
  deriving DecidableEq, Repr

/-- The message of a complaint. -/
def Complaint.message (c : Complaint) : String :=
  "Invalid score document at " ++ pathText c.path ++ ": expected " ++ c.rule.text

/-- Why a document gives no score. -/
inductive LoadError where
  /-- The text is not JSON. -/
  | notJson
  /-- The document's version was not let in. -/
  | version (error : Schema.GateError)
  /-- A value breaks a rule. -/
  | malformed (complaint : Complaint)
  deriving DecidableEq, Repr

end LeadSheet.Document
