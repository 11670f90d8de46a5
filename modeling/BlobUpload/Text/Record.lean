/-! # Values as text

How a value with named fields is written, for instance `Point { x: 1, y: 2 }`.
-/

namespace BlobUpload.Record

/-- A value with named fields. -/
def render (name : String) (fields : List (String × String)) : String :=
  let entries := fields.map fun (field, value) => field ++ ": " ++ value
  name ++ " \x7b " ++ ", ".intercalate entries ++ " \x7d"

def optional : Option String → String
  | none => "None"
  | some value => "Some(" ++ value ++ ")"

def list (values : List String) : String := "[" ++ ", ".intercalate values ++ "]"

end BlobUpload.Record
