import HandlerChain.Text.Quoted

/-!
# The written shape of values

Records, tagged values and lists share one layout wherever a value is shown for
diagnosis: a record names its fields between braces, a tagged value puts its
argument between parentheses, a list stands between brackets.
-/

namespace HandlerChain.Text

def commaSeparated (items : List String) : String := ", ".intercalate items

/-- A record without fields is shown as its bare name. -/
def record (name : String) (fields : List (String × String)) : String :=
  if fields.isEmpty then name
  else name ++ " \x7b " ++ commaSeparated (fields.map fun f => f.1 ++ ": " ++ f.2) ++ " \x7d"

def tagged (name argument : String) : String := name ++ "(" ++ argument ++ ")"

def listing (items : List String) : String := "[" ++ commaSeparated items ++ "]"

def flag (b : Bool) : String := if b then "true" else "false"

def optional : Option String → String
  | none => "None"
  | some s => tagged "Some" s

theorem record_nil (name : String) : record name [] = name := rfl

end HandlerChain.Text
