import AssignLang.Config
import AssignLang.Text.Quoted
import AssignLang.Toml.Document

/-! Reading settings from a TOML document. A malformed document is refused first,
then the first key that is unknown or has a value of the wrong type, and at last an
output variable that no program could assign. -/

namespace AssignLang

inductive ReadFailure where
  | notFound
  | isDirectory
  | notText
deriving DecidableEq, Repr, Inhabited

inductive ConfigError where
  | unreadable (path : String) (failure : ReadFailure)
  | malformed
  | unknownKey (key : String)
  | wrongType (found wanted : String)
  | invalidOutputVariable (name : String)
deriving DecidableEq, Repr, Inhabited

def ReadFailure.message : ReadFailure → String
  | .notFound => "No such file or directory (os error 2)"
  | .isDirectory => "Is a directory (os error 21)"
  | .notText => "stream did not contain valid UTF-8"

/-- The wording of an error; how a document is malformed is not said. -/
def ConfigError.message? : ConfigError → Option String
  | .unreadable path failure => some ("failed to read " ++ path ++ ": " ++ failure.message)
  | .malformed => none
  | .unknownKey key =>
    some ("unknown field `" ++ key ++ "`, expected `output_variable` or `report_unused`")
  | .wrongType found wanted => some ("invalid type: " ++ found ++ ", expected " ++ wanted)
  | .invalidOutputVariable name =>
    some ("`" ++ name ++ "` is not a valid output variable name")

def Toml.Value.describe : Toml.Value → String
  | .string text => "string " ++ String.ofList (Text.quote text.toList)
  | .integer n => "integer `" ++ toString n ++ "`"
  | .float x => "floating point `" ++ String.ofList x.text ++ "`"
  | .boolean b => "boolean `" ++ (if b then "true" else "false") ++ "`"
  | .dateTime | .table .. => "map"
  | .array _ | .tables _ => "sequence"

namespace Config

def set (config : Config) (entry : String × Toml.Value) : Except ConfigError Config :=
  match entry with
  | ("output_variable", .string name) => .ok { config with outputVariable := name }
  | ("output_variable", value) => .error (.wrongType value.describe "a string")
  | ("report_unused", .boolean b) => .ok { config with reportUnused := b }
  | ("report_unused", value) => .error (.wrongType value.describe "a boolean")
  | (key, _) => .error (.unknownKey key)

def validate (config : Config) : Except ConfigError Config :=
  if config.isValid then .ok config
  else .error (.invalidOutputVariable config.outputVariable)

/-- Reads settings; what the document does not set keeps its default. -/
def ofToml (document : Text) : Except ConfigError Config :=
  match Toml.read? document with
  | none => .error .malformed
  | some entries => (entries.foldlM set {}).bind validate

def ofFile (path : String) (contents : Except ReadFailure ByteArray) :
    Except ConfigError Config :=
  match contents with
  | .error failure => .error (.unreadable path failure)
  | .ok bytes =>
    match String.fromUTF8? bytes with
    | none => .error (.unreadable path .notText)
    | some document => ofToml document.toList

end Config

end AssignLang
