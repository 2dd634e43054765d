import AccessControl.CommandLine
import Std.Time.DateTime.Timestamp

/-! # The program

Looks at the machine once at the start, runs a command line on what it saw, and prints the outcome.
-/
namespace AccessControl.CommandLine

def variableNames : List String :=
  [configVariable, "CLICOLOR_FORCE", "NO_COLOR"] ++
    ["AUTH_SECRET", "AUTH_SECRET_FILE", "AUTH_USER_KEY_TTL_SECS", "AUTH_RECOVERY_KEY_TTL_SECS",
      "AUTH_API_KEY_TTL_SECS", "AUTHZ_DECISION_TIMEOUT_MS", "LOG_LEVEL", "LOG_JSON"].map
      (s!"{Settings.stem}_" ++ ·)

/-- The paths that an argument may hold: the whole of it, or what follows an equals sign. -/
def pathsIn (arg : String) : List String :=
  [arg, String.ofList ((arg.toList.dropWhile (· != '=')).drop 1)]

def readVariable (name : String) : IO (Option (String × String)) := do
  return (← IO.getEnv name).map (name, ·)

/-- Whether an error tells of something that is there but cannot be read. -/
def isThere : IO.Error → Bool
  | .noFileOrDirectory .. => false
  | .inappropriateType _ code _ => code != 20
  | _ => true

def look (e : Environment) (path : String) : IO Environment := do
  if path.isEmpty || '\x00' ∈ path.toList then return e
  match ← (IO.FS.readBinFile path).toBaseIO with
  | .ok contents => return e.put path (.file contents.toList)
  | .error cause => return if isThere cause then e.put path .directory else e

/-- The variables of a run, and everything that its paths may lead to. -/
def surroundings (args : List String) : IO Environment := do
  let bindings ← variableNames.filterMapM readVariable
  let here ← IO.currentDir
  let start : Environment :=
    ⟨bindings.map fun v => (v.1, Text.octetsOf v.2), [], [], Environment.splitPath here.toString⟩
  let paths := Settings.machineFile :: (bindings.map (·.2) ++ args.flatMap pathsIn)
  paths.eraseDups.foldlM look start

def currentInstant : IO Instant := do
  let nanos := (← Std.Time.Timestamp.now).toNanosecondsSinceUnixEpoch.toInt
  return ⟨nanos / Instant.nanosPerSecond, (nanos % Instant.nanosPerSecond).toNat⟩

def freshIdentifiers : IO (Nat → String) := do
  let bytes ← IO.getRandomBytes 16
  let first := bytes.toList.foldl (fun n b => n * 256 + b.toNat) 0
  return fun n => Fresh.uuid (first + n)

def usageText : String := "error: invalid usage\n\nFor more information, try '--help'.\n"

def Failure.text (f : Failure) : String :=
  match f.hangingCause with
  | some cause =>
    let indent := Terminal.spaces Failure.causeIndent
    s!"Error: {f.headline}\n\nCaused by:\n{indent}{cause}\n"
  | none => s!"Error: {f.headline}\n"

def complaint (outcome : Outcome) : String :=
  match outcome.failure with
  | some f => f.text
  | none => if outcome.status = usageStatus then usageText else ""

end AccessControl.CommandLine

open AccessControl in
def main (args : List String) : IO UInt32 := do
  let start : CommandLine.Start :=
    ⟨← CommandLine.surroundings args, ← CommandLine.currentInstant, ← CommandLine.freshIdentifiers⟩
  let outcome := CommandLine.run start (args.map Text.octetsOf)
  IO.print outcome.output
  IO.eprint (CommandLine.complaint outcome)
  return outcome.status.toUInt32
