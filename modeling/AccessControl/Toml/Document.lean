import AccessControl.Toml.Scalar
import AccessControl.Toml.Table

/-! # TOML documents

A document is a list of lines, each empty, a header or a key with its value. Values may hold arrays,
which go over several lines, and tables on one line.
-/
namespace AccessControl.Toml

/-- Levels of arrays and tables in a value, and parts of a key, stay below this. -/
def nestingLimit : Nat := 80

def joinLineBreaks : List Char → List Char
  | '\r' :: '\n' :: rest => '\n' :: joinLineBreaks rest
  | c :: rest => c :: joinLineBreaks rest
  | [] => []

def skipBlanks : List Char → List Char := List.dropWhile isBlank

def skipComment : List Char → List Char
  | '#' :: rest => rest.dropWhile isText
  | s => s

def endLine (s : List Char) : Option (List Char) :=
  match skipComment (skipBlanks s) with
  | [] => some []
  | '\n' :: rest => some rest
  | _ => none

def skipLines (inComment : Bool) : List Char → List Char
  | [] => []
  | c :: rest =>
    if c = '\n' then skipLines false rest
    else if inComment then (if isText c then skipLines true rest else c :: rest)
    else if isBlank c then skipLines false rest
    else if c = '#' then skipLines true rest
    else c :: rest

def isBare (c : Char) : Bool :=
  ('a' ≤ c && c ≤ 'z') || ('A' ≤ c && c ≤ 'Z') || ('0' ≤ c && c ≤ '9') || c == '_' || c == '-'

def readName (s : List Char) : Option (String × List Char) :=
  match s with
  | c :: rest =>
    if c = '"' ∨ c = '\'' then readShort c rest
    else if isBare c then some (String.ofList (s.takeWhile isBare), s.dropWhile isBare)
    else none
  | [] => none

def readNames : Nat → List Char → Option (List String × List Char)
  | 0, _ => none
  | steps + 1, s => do
    let (name, s) ← readName (skipBlanks s)
    match skipBlanks s with
    | '.' :: rest => do
      let (names, rest) ← readNames steps rest
      return (name :: names, rest)
    | rest => return ([name], rest)

/-- A key: the parts before the last one, the last one, and what follows. -/
def readKey (s : List Char) : Option (List String × String × List Char) := do
  let (names, rest) ← readNames (nestingLimit - 1) s
  return (names.dropLast, ← names.getLast?, rest)

mutual

/-- A value and what follows it. The first argument bounds the steps, which are never more than
twice the length of the input and two; the second is the level of nesting. -/
def readValue : Nat → Nat → List Char → Option (Value × List Char)
  | 0, _, _ => none
  | steps + 1, level, s =>
    match s with
    | [] => none
    | c :: rest =>
      if c = '"' ∨ c = '\'' then
        (readQuoted c rest).map fun (text, rest) => (.string text, rest)
      else if c = '[' then
        if nestingLimit ≤ level + 1 then none
        else (readItems steps (level + 1) rest).map fun (items, rest) => (.array items, rest)
      else if c = '{' then
        if nestingLimit ≤ level + 1 then none
        else
          match skipBlanks rest with
          | '}' :: rest => some (.object [], rest)
          | rest => (readFields steps (level + 1) [] rest).map fun (fields, rest) =>
            (.object (Node.fieldValues fields), rest)
      else readPlain s

def readItems : Nat → Nat → List Char → Option (List Value × List Char)
  | 0, _, _ => none
  | steps + 1, level, s =>
    match skipLines false s with
    | ']' :: rest => some ([], rest)
    | s => do
      let (v, s) ← readValue steps level s
      match skipLines false s with
      | ',' :: rest => do
        let (items, rest) ← readItems steps level rest
        return (v :: items, rest)
      | ']' :: rest => return ([v], rest)
      | _ => none

/-- The fields of a table on one line, at least one, up to its closing brace. -/
def readFields : Nat → Nat → Fields → List Char → Option (Fields × List Char)
  | 0, _, _, _ => none
  | steps + 1, level, done, s => do
    let (path, name, s) ← readKey s
    let s ← Instant.literal '=' s
    let (v, s) ← readValue steps level (skipBlanks s)
    let done ← done.assign path name v
    match skipBlanks s with
    | ',' :: rest => readFields steps level done rest
    | '}' :: rest => return (done, rest)
    | _ => none

end

/-- What has been read: all tables, and the path to the one that lines add to. -/
structure State where
  root : Fields
  current : List String

def readField (st : State) (s : List Char) : Option (State × List Char) := do
  let (path, name, s) ← readKey s
  let s ← Instant.literal '=' s
  let (v, s) ← readValue (2 * s.length + 2) 0 (skipBlanks s)
  let s ← endLine s
  let root ← Fields.change false (fun _ fields => fields.assign path name v) st.current
    .header st.root
  return ({ st with root := root }, s)

def readHeader (st : State) (s : List Char) : Option (State × List Char) :=
  match s with
  | '[' :: rest => do
    let (path, name, s) ← readKey rest
    let s ← endLine (← Instant.literal ']' (← Instant.literal ']' s))
    return (⟨← st.root.openRow path name, path ++ [name]⟩, s)
  | s => do
    let (path, name, s) ← readKey s
    let s ← endLine (← Instant.literal ']' s)
    return (⟨← st.root.openTable path name, path ++ [name]⟩, s)

def readLines : Nat → State → List Char → Option State
  | 0, _, _ => none
  | steps + 1, st, s =>
    match skipLines false s with
    | [] => some st
    | '[' :: rest => do
      let (st, rest) ← readHeader st rest
      readLines steps st rest
    | s => do
      let (st, rest) ← readField st s
      readLines steps st rest

def byteOrderMark : Char := '\ufeff'

def read (text : String) : Option Value := do
  let s := match text.toList with
    | c :: rest => if c = byteOrderMark then rest else c :: rest
    | [] => []
  let s := joinLineBreaks s
  let st ← readLines (s.length + 1) ⟨[], []⟩ s
  return .object (Node.fieldValues st.root)

end AccessControl.Toml
