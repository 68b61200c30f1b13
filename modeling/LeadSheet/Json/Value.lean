/-!
# JSON values

The documents a score is stored in are JSON. A value keeps the order of its fields; two fields of
one name never stand beside each other in a value that was read, since the later one replaces the
value of the earlier one.
-/

namespace LeadSheet

/-- A JSON value. Numbers are doubles. -/
inductive Json where
  | null
  | bool (value : Bool)
  | number (value : Float)
  | string (value : String)
  | array (items : List Json)
  | object (fields : List (String × Json))
  deriving Inhabited

namespace Json

/-- The named values of an object. -/
abbrev Fields := List (String × Json)

namespace Fields

/-- The value of a field. -/
def get? (fields : Fields) (name : String) : Option Json := fields.lookup name

/-- Gives a field a value: in place if the field is there, at the end if it is not. -/
def put (fields : Fields) (name : String) (value : Json) : Fields :=
  match fields with
  | [] => [(name, value)]
  | (other, old) :: rest =>
    if other = name then (other, value) :: rest else (other, old) :: put rest name value

/-- All fields of `later` put over `fields`. -/
def putAll (fields later : Fields) : Fields :=
  later.foldl (fun fields entry => fields.put entry.1 entry.2) fields

end Fields

/-- The value of a field, if the value is an object that has it. -/
def get? (value : Json) (name : String) : Option Json :=
  match value with
  | object fields => Fields.get? fields name
  | _ => none

end Json

end LeadSheet
