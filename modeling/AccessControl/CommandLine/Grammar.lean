import AccessControl.Text.Octets

/-! # The grammar of command lines

Options with two dashes and a value, written apart or after an equals sign; the options for help and
for the version; one plain argument for some commands. Two dashes alone end the options. Arguments
are octets, which need not spell text.
-/
namespace AccessControl.CommandLine
open Text (Octets)

structure OptionSpec where
  name : String
  placeholder : String
  help : String
  /-- The default and the accepted values, as help shows them. -/
  notes : String
  required : Bool
  accepts : Octets → Bool

structure CommandSpec where
  name : String
  about : String
  options : List OptionSpec
  /-- The placeholder of the plain argument. -/
  argument : Option String
  /-- Whether the version can be asked for. -/
  versioned : Bool

structure Given where
  options : List (String × Octets)
  argument : Option Octets

namespace Given

def empty : Given := ⟨[], none⟩

def value? (g : Given) (name : String) : Option Octets := g.options.lookup name

def text? (g : Given) (name : String) : Option String := (g.value? name).bind Text.decode

def add (g : Given) (name : String) (v : Octets) : Given :=
  { g with options := g.options ++ [(name, v)] }

end Given

inductive Token where
  | escape
  | long (name : Octets) (value : Option Octets)
  | short (name : UInt8)
  | plain (value : Octets)

def dash : UInt8 := 0x2D

def equals : UInt8 := 0x3D

def Token.ofOctets : Octets → Token
  | a :: b :: rest =>
    if a = dash ∧ b = dash then
      if rest.isEmpty then .escape
      else
        match rest.span (· != equals) with
        | (name, []) => .long name none
        | (name, _ :: value) => .long name (some value)
    else if a = dash then .short b
    else .plain (a :: b :: rest)
  | bs => .plain bs

/-- An option with a value that stands apart from it. It is only taken when the next argument is
read. -/
abbrev Pending := Option (OptionSpec × Octets)

inductive Ending where
  | given (g : Given)
  /-- A plain argument that is no argument of the command, and what follows it. -/
  | word (g : Given) (pending : Pending) (word : Octets) (rest : List Octets)
  | help
  | version
  | refused

namespace CommandSpec

def option? (c : CommandSpec) (name : Octets) : Option OptionSpec :=
  c.options.find? fun o => Text.octetsOf o.name == name

def take (o : OptionSpec) (v : Octets) (g : Given) : Option Given :=
  if (g.value? o.name).isSome || !o.accepts v then none else some (g.add o.name v)

def settle (g : Given) : Pending → Option Given
  | none => some g
  | some (o, v) => take o v g

def isWord (c : CommandSpec) (s : String) (name : Octets) (value : Option Octets) : Bool :=
  value.isNone && name == Text.octetsOf s && (s != "version" || c.versioned)

/-- What a command does with a plain argument, if it accepts one. -/
def place (c : CommandSpec) (v : Octets) (g : Given) : Option Given :=
  if c.argument.isSome && g.argument.isNone && (Text.decode v).isSome then
    some { g with argument := some v }
  else none

/-- The end that a flag brings, unless the option before it cannot be taken. -/
def flagEnding (g : Given) (pending : Pending) (ending : Ending) : Ending :=
  if (settle g pending).isSome then ending else .refused

/-- Reads arguments from left to right and stops at the first that decides the end. -/
def read (c : CommandSpec) (escaped : Bool) (g : Given) (pending : Pending) : List Octets → Ending
  | [] => ((settle g pending).map Ending.given).getD .refused
  | arg :: rest =>
    match if escaped then Token.plain arg else Token.ofOctets arg with
    | .escape => c.read true g pending rest
    | .plain v =>
      if c.argument.isNone then (if escaped then .refused else .word g pending v rest)
      else
        match (settle g pending).bind (c.place v) with
        | some g => c.read escaped g none rest
        | none => .refused
    | .short b =>
      if b = 0x68 then flagEnding g pending .help
      else if b = 0x56 ∧ c.versioned then flagEnding g pending .version
      else .refused
    | .long name value =>
      if c.isWord "help" name value then flagEnding g pending .help
      else if c.isWord "version" name value then flagEnding g pending .version
      else
        match c.option? name, settle g pending, value with
        | some o, some g, some v =>
          match take o v g with
          | some g => c.read false g none rest
          | none => .refused
        | some o, some g, none =>
          match rest with
          | [] => .refused
          | next :: rest =>
            match Token.ofOctets next with
            | .plain v => c.read false g (some (o, v)) rest
            | _ => .refused
        | _, _, _ => .refused

def isComplete (c : CommandSpec) (g : Given) : Bool :=
  (c.options.all fun o => !o.required || (g.value? o.name).isSome) &&
    (c.argument.isNone || g.argument.isSome)

end CommandSpec
end AccessControl.CommandLine
