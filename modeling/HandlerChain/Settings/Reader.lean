import HandlerChain.Number.Numeral
import HandlerChain.Settings.Basic
import HandlerChain.Text.Quoted

/-!
# Reading settings

Settings come as pairs of a key and a value, or by position. Pairs are judged in
the order in which they come and the first problem decides: a key that is unknown
or was already given is reported before its value is looked at.
-/

namespace HandlerChain.Settings

/-- A parsed value of a settings file. Of compound values only the shape matters:
no setting is compound. -/
inductive Datum where
  | null
  | flag (b : Bool)
  | number (q : Number.Quantity)
  | text (s : String)
  | sequence
  | mapping
deriving DecidableEq, Repr

/-- How a value is named when it is not of the expected type. -/
def Datum.describe : Datum → String
  | .null => "null"
  | .flag b => "boolean `" ++ (if b then "true" else "false") ++ "`"
  | .number q => q.kind ++ " `" ++ q.render ++ "`"
  | .text s => "string " ++ Text.quoted s
  | .sequence => "sequence"
  | .mapping => "map"

inductive ReadError where
  | unknownField (key : String) (known : List String)
  | duplicateField (key : String)
  | wrongType (found : Datum) (expected : String)
  | wrongLength (given known : Nat)
deriving DecidableEq, Repr

namespace ReadError

def backquoted (s : String) : String := "`" ++ s ++ "`"

def message : ReadError → String
  | .unknownField key known =>
    "unknown field " ++ backquoted key ++ ", expected "
      ++ " or ".intercalate (known.map backquoted)
  | .duplicateField key => "duplicate field " ++ backquoted key
  | .wrongType found expected => "invalid type: " ++ found.describe ++ ", expected " ++ expected
  | .wrongLength given known =>
    "invalid length " ++ toString given ++ ", expected " ++ toString known
      ++ (if known = 1 then " element" else " elements") ++ " in sequence"

end ReadError

/-- One setting of `α`: its key, and how a value of it is taken over. -/
structure Field (α : Type) where
  key : String
  assign : Datum → α → Except ReadError α

/-- What a kind of settings is called, and which fields it has, in order. -/
structure Schema (α : Type) where
  title : String
  fields : List (Field α)

namespace Schema

variable {α : Type}

def keys (schema : Schema α) : List String := schema.fields.map Field.key

def field? (schema : Schema α) (key : String) : Option (Field α) :=
  schema.fields.find? (·.key == key)

/-- Take over the pairs in order; `seen` are the keys that were given before. -/
def readPairs (schema : Schema α) (seen : List String) :
    List (String × Datum) → α → Except ReadError α
  | [], a => .ok a
  | (key, datum) :: rest, a =>
    match schema.field? key with
    | none => .error (.unknownField key schema.keys)
    | some field =>
      if key ∈ seen then .error (.duplicateField key)
      else
        match field.assign datum a with
        | .error e => .error e
        | .ok a => readPairs schema (key :: seen) rest a

/-- Take over values by position; fields without a value keep what they have. -/
def assignInOrder : List (Field α) → List Datum → α → Except ReadError α
  | field :: fields, datum :: data, a =>
    match field.assign datum a with
    | .error e => .error e
    | .ok a => assignInOrder fields data a
  | _, _, a => .ok a

/-- A sequence may be short but not too long; its values are judged first. -/
def readSequence (schema : Schema α) (data : List Datum) (a : α) : Except ReadError α :=
  match assignInOrder schema.fields data a with
  | .error e => .error e
  | .ok a =>
    if schema.fields.length < data.length then
      .error (.wrongLength data.length schema.fields.length)
    else .ok a

end Schema

/-- The forms in which settings arrive. -/
inductive Document where
  | pairs (entries : List (String × Datum))
  | sequence (data : List Datum)
  | scalar (datum : Datum)
deriving DecidableEq, Repr

def Schema.read {α : Type} [Inhabited α] (schema : Schema α) : Document → Except ReadError α
  | .pairs entries => schema.readPairs [] entries default
  | .sequence data => schema.readSequence data default
  | .scalar datum => .error (.wrongType datum ("struct " ++ schema.title))

/-- A name may be null, which is the same as absent. -/
def readName : Datum → Except ReadError (Option String)
  | .null => .ok none
  | .text s => .ok (some s)
  | d => .error (.wrongType d "a string")

def readFlag : Datum → Except ReadError Bool
  | .flag b => .ok b
  | d => .error (.wrongType d "a boolean")

instance : Inhabited CombinatorSettings := ⟨{}⟩
instance : Inhabited ChannelSettings := ⟨{}⟩

def combinator : Schema CombinatorSettings where
  title := "DuplexConfig"
  fields := [
    { key := "name", assign := fun d s => (readName d).map fun name => { s with name } },
    { key := "sharable", assign := fun d s => (readFlag d).map fun sharable => { s with sharable } }]

def channel : Schema ChannelSettings where
  title := "ChannelMetadata"
  fields := [
    { key := "has_disconnect",
      assign := fun d s => (readFlag d).map fun hasDisconnect => { s with hasDisconnect } }]

end HandlerChain.Settings
