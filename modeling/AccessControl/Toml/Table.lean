import AccessControl.Value

/-! # Tables in the making

A table is made by its own header, on the way to another table, or by a dotted key. These decide who
may still add to it: a header may complete a table that was only passed, dotted keys may add to a
table that dotted keys made, and nothing reopens a table that was written in one piece.
-/
namespace AccessControl.Toml

inductive Origin where
  | header
  | passed
  | dotted
  deriving DecidableEq

inductive Node where
  /-- A value that was written in one piece. -/
  | leaf (v : Value)
  | table (origin : Origin) (fields : List (String × Node))
  /-- Tables under one header, the last one first. -/
  | rows (tables : List (List (String × Node)))

abbrev Fields := List (String × Node)

namespace Node

mutual

def toValue : Node → Value
  | .leaf v => v
  | .table _ fields => .object (fieldValues fields)
  | .rows tables => .array (rowValues [] tables)

def fieldValues : List (String × Node) → List (String × Value)
  | [] => []
  | (name, node) :: rest => (name, toValue node) :: fieldValues rest

def rowValues (done : List Value) : List (List (String × Node)) → List Value
  | [] => done
  | row :: rest => rowValues (.object (fieldValues row) :: done) rest

end

end Node

namespace Fields

def find? (name : String) : Fields → Option Node
  | [] => none
  | (n, node) :: rest => if n = name then some node else find? name rest

/-- Puts a node in the place of the one under its name, or last. -/
def put (name : String) (node : Node) : Fields → Fields
  | [] => [(name, node)]
  | (n, old) :: rest => if n = name then (n, node) :: rest else (n, old) :: put name node rest

/-- Changes the table at the end of a path, and makes the tables on the way that are not there. The
way of a dotted key does not lead through tables that have their own header. -/
def change (dotted : Bool) (f : Origin → Fields → Option Fields) :
    List String → Origin → Fields → Option Fields
  | [], origin, fields => f origin fields
  | name :: path, _, fields =>
    match find? name fields with
    | none => do
      let origin := if dotted then Origin.dotted else .passed
      return put name (.table origin (← change dotted f path origin [])) fields
    | some (.leaf _) => none
    | some (.rows []) => none
    | some (.rows (row :: rows)) => do
      return put name (.rows ((← change dotted f path .header row) :: rows)) fields
    | some (.table origin inner) =>
      if dotted && origin == .header then none
      else do return put name (.table origin (← change dotted f path origin inner)) fields

/-- Adds a value under the last part of a key to the table that the other parts name. -/
def assign (path : List String) (name : String) (v : Value) (fields : Fields) : Option Fields :=
  change true
    (fun origin inner =>
      if (!path.isEmpty && origin != .dotted) || (find? name inner).isSome then none
      else some (put name (.leaf v) inner))
    path .header fields

def openTable (path : List String) (name : String) (fields : Fields) : Option Fields :=
  change false
    (fun _ inner =>
      match find? name inner with
      | none => some (put name (.table .header []) inner)
      | some (.table .passed made) => some (put name (.table .header made) inner)
      | some _ => none)
    path .header fields

/-- Starts the next table under a header that may occur more than once. -/
def openRow (path : List String) (name : String) (fields : Fields) : Option Fields :=
  change false
    (fun _ inner =>
      match find? name inner with
      | none => some (put name (.rows [[]]) inner)
      | some (.rows rows) => some (put name (.rows ([] :: rows)) inner)
      | some _ => none)
    path .header fields

end Fields
end AccessControl.Toml
