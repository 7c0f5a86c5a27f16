/- # Records on one line

The one-line text of records, sequences, pairs and optional values.
-/
namespace AccessOrder.Text

/-- Field texts joined by commas, each as a name, a colon and a value. -/
def fieldTexts (fields : List (String × String)) : List String :=
  fields.map fun (name, value) => name ++ ": " ++ value

/-- A record whose fields are all shown. -/
def record (name : String) (fields : List (String × String)) : String :=
  match fields with
  | [] => name
  | _ => name ++ " \x7b " ++ ", ".intercalate (fieldTexts fields) ++ " \x7d"

/-- A record that has more than the fields shown. -/
def openRecord (name : String) (fields : List (String × String)) : String :=
  name ++ " \x7b " ++ ", ".intercalate (fieldTexts fields ++ [".."]) ++ " \x7d"

/-- A sequence between brackets. -/
def sequence (items : List String) : String := "[" ++ ", ".intercalate items ++ "]"

/-- A pair between parentheses. -/
def pair (first second : String) : String := "(" ++ first ++ ", " ++ second ++ ")"

/-- An optional value. -/
def optional : Option String → String
  | none => "None"
  | some value => "Some(" ++ value ++ ")"

/-- A truth value. -/
def flag : Bool → String
  | true => "true"
  | false => "false"

end AccessOrder.Text
