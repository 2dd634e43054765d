import AccessControl.CommandLine.Grammar
import AccessControl.Key

/-! # Commands

The commands of the program with their options, and what a whole command line asks for. The file of
settings may be given before or after the name of the command, or in a variable.
-/
namespace AccessControl.CommandLine
open Text (Octets)

inductive Command where
  | issue (subject : String) (kind : KeyType) (email issuer id : Option String)
      (lifetime : Option Nat)
  | parse (token : String)
  | check (seed : String) (subject : Principal) (object action : String)
  | version

def isUtf8 (v : Octets) : Bool := (Text.decode v).isSome

def isPath (v : Octets) : Bool := !v.isEmpty

def isOneOf (names : List String) (v : Octets) : Bool := (Text.decode v).any (· ∈ names)

def isLifetime (v : Octets) : Bool := ((Text.decode v).bind Text.readCount).isSome

def configVariable : String := "WARDEN_CONFIG"

def configOption (config : String) : OptionSpec :=
  ⟨"config", "CONFIG", "Configuration file (defaults to /etc/warden/auth.toml)",
    s!"[env: {configVariable}={config}]", false, isPath⟩

def plainOption (name placeholder help : String) (required : Bool) : OptionSpec :=
  ⟨name, placeholder, help, "", required, isUtf8⟩

def choiceNotes (names : List String) : String :=
  let all := String.intercalate ", " names
  match names with
  | [] => ""
  | first :: _ => s!"[default: {first}] [possible values: {all}]"

def kindNames : List String := KeyType.all.map KeyType.display

def subjectNames : List String := SubjectType.all.map SubjectType.name

/-- The command without a name, where the file of settings is shown as it is set in the
environment. -/
def rootSpec (config : String) : CommandSpec :=
  ⟨"warden", "Warden identity and access control", [configOption config], none, true⟩

def issueSpec (config : String) : CommandSpec :=
  ⟨"issue", "Sign a new key and print the token",
    [configOption config, plainOption "subject" "SUBJECT" "Subject the key identifies" true,
      ⟨"kind", "KIND", "", choiceNotes kindNames, false, isOneOf kindNames⟩,
      plainOption "email" "EMAIL" "" false,
      plainOption "issuer" "ISSUER" "Principal requesting the key (defaults to the subject)" false,
      plainOption "id" "ID" "Key ID; generated for API keys when omitted" false,
      ⟨"ttl-secs", "TTL_SECS", "Lifetime in seconds; defaults to the configured TTL for the kind",
        "", false, isLifetime⟩],
    none, false⟩

def parseSpec (config : String) : CommandSpec :=
  ⟨"parse", "Validate a token and print its claims", [configOption config], some "TOKEN", false⟩

def checkSpec (config : String) : CommandSpec :=
  ⟨"check", "Evaluate a decision against a seed file of groups and policies",
    [configOption config,
      ⟨"seed", "SEED", "TOML seed with groups, memberships and policies", "", true, isPath⟩,
      plainOption "subject" "SUBJECT" "" true,
      ⟨"subject-type", "SUBJECT_TYPE", "", choiceNotes subjectNames, false, isOneOf subjectNames⟩,
      plainOption "object" "OBJECT" "Object as type:id, e.g. channel:1" true,
      plainOption "action" "ACTION" "" true],
    none, false⟩

def versionSpec (config : String) : CommandSpec :=
  ⟨"version", "Show version and build information", [configOption config], none, false⟩

def commands (config : String) : List CommandSpec :=
  [issueSpec config, parseSpec config, checkSpec config, versionSpec config]

def commandOf (name : String) (g : Given) : Option Command :=
  if name = "issue" then do
    let subject ← g.text? "subject"
    let kind := (g.text? "kind").bind fun s => KeyType.all.find? fun t => t.display == s
    some (.issue subject (kind.getD .user) (g.text? "email") (g.text? "issuer") (g.text? "id")
      ((g.text? "ttl-secs").bind Text.readCount))
  else if name = "parse" then (g.argument.bind Text.decode).map .parse
  else if name = "check" then do
    let seed ← g.value? "seed"
    let subject ← g.text? "subject"
    let object ← g.text? "object"
    let action ← g.text? "action"
    let kind := (g.text? "subject-type").bind SubjectType.ofName?
    some (.check (Text.shown seed) ⟨kind.getD .user, subject⟩ object action)
  else if name = "version" then some .version
  else none

inductive Invocation where
  | run (config : Option String) (command : Command)
  /-- Help on a command, on the program, or on help itself. -/
  | help (topic : Option String)
  | version
  | refused

def helpName : String := "help"

def helpOn (config : String) (words : List Octets) : Invocation :=
  match words with
  | [] => .help none
  | [word] =>
    match (((commands config).map (·.name)) ++ [helpName]).find? fun n =>
      Text.octetsOf n == word with
    | some name => .help (some name)
    | none => .refused
  | _ => .refused

/-- The file of settings: after the command, before it, or from the variable. -/
def configOf (setting : Option Octets) (before after : Given) : Option String :=
  (((after.value? "config").or (before.value? "config")).or setting).map Text.shown

/-- An empty variable counts as an error unless both places on the command line make it useless. -/
def acceptsVariable (setting : Option Octets) (before after : Given) : Bool :=
  setting.all isPath || ((before.value? "config").isSome && (after.value? "config").isSome)

/-- What a command and the arguments after it ask for. An option before the command that is still
pending is only taken when the command does not end with help. -/
def invocationOf (setting : Option Octets) (before : Given) (pending : Pending) (c : CommandSpec)
    (args : List Octets) : Invocation :=
  match c.read false .empty none args with
  | .help => .help (some c.name)
  | .given after =>
    match CommandSpec.settle before pending with
    | none => .refused
    | some before =>
      if c.isComplete after && acceptsVariable setting before after then
        match commandOf c.name after with
        | some command => .run (configOf setting before after) command
        | none => .refused
      else .refused
  | _ => .refused

/-- Reads a command line without the name of the program, beside the variable for the file of
settings. -/
def invocation (setting : Option Octets) (args : List Octets) : Invocation :=
  let config := (setting.map Text.shown).getD ""
  match (rootSpec config).read false .empty none args with
  | .help => .help none
  | .version => .version
  | .refused => .refused
  | .given _ => .refused
  | .word before pending word rest =>
    if word == Text.octetsOf helpName then helpOn config rest
    else
      match (commands config).find? fun c => Text.octetsOf c.name == word with
      | none => .refused
      | some c => invocationOf setting before pending c rest

end AccessControl.CommandLine
