/-! # Errors of settings

Why settings cannot be loaded. Of an unreadable file or a malformed document only the path is told.
-/
namespace AccessControl

inductive SecretError where
  | unreadable (path : String)
  | emptyPath (variableName : String)
  deriving DecidableEq, Repr

def SecretError.message : SecretError → String
  | unreadable path => s!"failed to read secret file at {path}"
  | emptyPath name => s!"secret file path in {name} is empty"

inductive SettingsError where
  | invalidValue (key reason : String)
  | malformedFile (path : String)
  | unreadableFile (path : String)
  | invalid (reason : String)
  | secret (e : SecretError)
  deriving DecidableEq, Repr

namespace SettingsError

def message : SettingsError → String
  | invalidValue key reason => s!"Invalid value for {key}: {reason}"
  | malformedFile path => s!"Failed to parse TOML config at {path}"
  | unreadableFile path => s!"Failed to read config file {path}"
  | invalid reason => s!"Validation error: {reason}"
  | secret e => s!"Secret loading error: {e.message}"

def cause : SettingsError → Option String
  | secret (.emptyPath name) => some (SecretError.emptyPath name).message
  | _ => none

end SettingsError
end AccessControl
