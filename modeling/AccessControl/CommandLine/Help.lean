import AccessControl.CommandLine.Commands
import AccessControl.Text.Terminal

/-! # Help

The help of the program and of each command: what it is about, how it is used, and its commands and
options, each with its text beside it. Names are emphasized.
-/
namespace AccessControl.CommandLine.Help
open Terminal (Line)

structure Entry where
  label : Line
  text : String

def placeholder (o : OptionSpec) : String := s!" <{o.placeholder}>"

def optionLabel (o : OptionSpec) : Line := [.strong ("--" ++ o.name), .text (placeholder o)]

def optionText (o : OptionSpec) : String :=
  if o.help.isEmpty then o.notes
  else if o.notes.isEmpty then o.help
  else s!"{o.help} {o.notes}"

def optionEntry (o : OptionSpec) : Entry := ⟨.text "      " :: optionLabel o, optionText o⟩

def flagEntry (letter word text : String) : Entry :=
  ⟨[.text "  ", .strong ("-" ++ letter), .text ", ", .strong ("--" ++ word)], text⟩

def closingEntries (c : CommandSpec) : List Entry :=
  flagEntry "h" "help" "Print help" ::
    (if c.versioned then [flagEntry "V" "version" "Print version"] else [])

/-- Lines of labels with their texts, which begin in one column. -/
def writeEntries (entries : List Entry) : List Line :=
  let column := ((entries.map fun e => Terminal.width e.label).max?).getD 0 + 2
  entries.map fun e =>
    e.label ++ [.text (Terminal.spaces (column - Terminal.width e.label)),
      .text (Terminal.hang column e.text)]

def title (s : String) : Line := [.heading (s ++ ":")]

def options (c : CommandSpec) : List Line :=
  title "Options" :: writeEntries (c.options.map optionEntry ++ closingEntries c)

/-- How a command is called; the rest is what stands behind its name. -/
def usage (name : String) (rest : Line) : Line :=
  title "Usage" ++ [.text " ", .strong name, .text " "] ++ rest

def helpAbout : String := "Print this message or the help of the given subcommand(s)"

def commandEntry (name about : String) : Entry := ⟨[.text "  ", .strong name], about⟩

def onProgram (config : String) : List Line :=
  let root := rootSpec config
  let entries := (commands config).map (fun (c : CommandSpec) => commandEntry c.name c.about) ++
    [commandEntry helpName helpAbout]
  [[.text root.about], [], usage root.name [.text "[OPTIONS] <COMMAND>"], [], title "Commands"] ++
    writeEntries entries ++ [] :: options root

def commandUsage (c : CommandSpec) : Line :=
  let required := (c.options.filter (·.required)).flatMap fun o => .text " " :: optionLabel o
  let argument := (c.argument.map fun a => s!" <{a}>").getD ""
  usage ("warden " ++ c.name) (.text "[OPTIONS]" :: required ++ [.text argument])

def onCommand (c : CommandSpec) : List Line :=
  let arguments := match c.argument with
    | some a => title "Arguments" :: writeEntries [⟨[.text s!"  <{a}>"], ""⟩] ++ [[]]
    | none => []
  [[.text c.about], [], commandUsage c, []] ++ arguments ++ options c

def onHelp : List Line :=
  [[.text helpAbout], [], usage "warden help" [.text "[COMMAND]..."], [], title "Arguments"] ++
    writeEntries [⟨[.text "  [COMMAND]..."], "Print help for the subcommand(s)"⟩]

def text (config : String) (topic : Option String) : String :=
  let lines := match topic with
    | none => onProgram config
    | some name =>
      match (commands config).find? fun (c : CommandSpec) => c.name == name with
      | some c => onCommand c
      | none => onHelp
  String.join (lines.map fun l => Terminal.marked l ++ "\n")

end AccessControl.CommandLine.Help
