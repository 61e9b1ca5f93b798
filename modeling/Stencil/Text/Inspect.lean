/-
Inspection text: the one-line form in which values are shown to a programmer. Records show their name and fields,
alternatives with a payload show the payload in brackets, maps and lists their entries in order.
-/
namespace Stencil.Inspect

/-- a record with its fields in order; without fields it is its bare name -/
def record (name : String) (fields : List (String × String)) : String :=
  if fields.isEmpty then name
  else
    name ++ " \x7b " ++ String.intercalate ", " (fields.map fun field => field.1 ++ ": " ++ field.2) ++ " \x7d"

/-- an alternative that carries one value -/
def payload (name value : String) : String := name ++ "(" ++ value ++ ")"

/-- an optional value, already shown -/
def option : Option String → String
  | none => "None"
  | some text => payload "Some" text

/-- entries in order, between square brackets -/
def list (items : List String) : String := "[" ++ String.intercalate ", " items ++ "]"

/-- entries in order, between round brackets; a single entry keeps a trailing comma -/
def tuple : List String → String
  | [item] => "(" ++ item ++ ",)"
  | items => "(" ++ String.intercalate ", " items ++ ")"

/-- keys and values in order -/
def map (entries : List (String × String)) : String :=
  "\x7b" ++ String.intercalate ", " (entries.map fun entry => entry.1 ++ ": " ++ entry.2) ++ "\x7d"

end Stencil.Inspect
