import AccessControl.Text.Octets

/-! # The environment of a run

The variables and the files that a run can see. Paths are followed part by part from the root, or
from the working directory when they do not begin with a slash, and every part before the last must
be a directory.
-/
namespace AccessControl
open Text (Octets)

abbrev Path := List String

inductive Place where
  | directory
  | file (contents : Octets)

structure Environment where
  bindings : List (String × Octets)
  files : List (Path × Octets)
  directories : List Path
  workingDirectory : Path

namespace Environment

def splitPath (s : String) : Path :=
  (s.toList.splitBy fun a b => a != '/' && b != '/').filterMap fun part =>
  if part = ['/'] then none else some (String.ofList part)

def origin (e : Environment) (path : String) : Path :=
  if path.startsWith "/" then [] else e.workingDirectory

def endsInSlash (s : String) : Bool := s.toList.getLast? == some '/'

def isDirectory (e : Environment) (path : Path) : Bool :=
  path.isEmpty || path ∈ e.directories || e.files.any fun f => path.isPrefixOf f.1 && path != f.1

def placeAt (e : Environment) (path : Path) : Option Place :=
  match e.files.find? fun f => f.1 == path with
  | some (_, contents) => some (.file contents)
  | none => if e.isDirectory path then some .directory else none

def walk (e : Environment) : Path → Path → Option Place
  | here, [] => e.placeAt here
  | here, part :: rest =>
    if !e.isDirectory here then none
    else if part = "." then e.walk here rest
    else if part = ".." then e.walk here.dropLast rest
    else e.walk (here ++ [part]) rest

def pathLimit : Nat := 4096

def isPlausible (path : String) : Bool :=
  !path.isEmpty && !path.toList.contains '\x00' && (Text.octetsOf path).length < pathLimit

def place (e : Environment) (path : String) : Option Place :=
  if !isPlausible path then none
  else
    match e.walk (e.origin path) (splitPath path), endsInSlash path with
    | some (.file _), true => none
    | found, _ => found

/-- The places that a path leads through, with the last one first. -/
def stations (here : Path) : Path → List Path
  | [] => [here]
  | part :: rest =>
    let next := if part = "." then here else if part = ".." then here.dropLast else here ++ [part]
    stations next rest ++ [here]

/-- Puts something where a path leads, with directories on the way. -/
def put (e : Environment) (path : String) (found : Place) : Environment :=
  match stations (e.origin path) (splitPath path), found with
  | [], _ => e
  | last :: way, .file contents =>
    { e with files := e.files ++ [(last, contents)], directories := e.directories ++ way }
  | way, .directory => { e with directories := e.directories ++ way }

/-- The text of a file; there is none when the file is missing or not UTF-8. -/
def readText (e : Environment) (path : String) : Option String :=
  match e.place path with
  | some (.file contents) => Text.decode contents
  | _ => none

def textAt? (e : Environment) (name : String) : Option String :=
  (e.bindings.find? fun v => v.1 == name).bind fun v => Text.decode v.2

end Environment
end AccessControl
