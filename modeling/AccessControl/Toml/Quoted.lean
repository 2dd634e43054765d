import AccessControl.Json.Reader

/-! # Quoted text in TOML

Four kinds of quotes: with escapes or without, on one line or over several. A text over several
lines ends at three quotes and may hold one or two quotes anywhere, also just before its end. One
machine reads them all, a character at a time.
-/
namespace AccessControl.Toml

def isText (c : Char) : Bool := c == '\t' || (' ' ≤ c && c != '\x7f')

def isBlank (c : Char) : Bool := c == ' ' || c == '\t'

/-- A kind of quote: its mark, and whether it goes over several lines. -/
structure Quote where
  mark : Char
  long : Bool

def escapingMark : Char := '"'

inductive Mode where
  | plain
  /-- So many marks were read that may be the end. -/
  | marks (n : Nat)
  | escape
  /-- So many digits of a code point are to come. -/
  | code (left point : Nat)
  /-- The line is to be continued, and has not ended. -/
  | trail
  /-- The line was continued, and the next text has not begun. -/
  | skip

/-- What a character adds to the text, and what comes next. -/
inductive Step where
  | go (out : List Char) (next : Mode)
  /-- The text has ended, with this character or before it. -/
  | stop (out : List Char) (consumed : Bool)

def Step.after (out : List Char) : Step → Step
  | go more next => go (out ++ more) next
  | stop more consumed => stop (out ++ more) consumed

def escaped (c : Char) : Option Char :=
  if c = 'b' then some '\x08'
  else if c = 't' then some '\t'
  else if c = 'n' then some '\n'
  else if c = 'f' then some '\x0c'
  else if c = 'r' then some '\r'
  else if c = '"' then some '"'
  else if c = '\\' then some '\\'
  else none

namespace Quote

def text (q : Quote) (c : Char) : Option Step :=
  if c = q.mark then some (if q.long then .go [] (.marks 1) else .stop [] true)
  else if c = '\\' ∧ q.mark = escapingMark then some (.go [] .escape)
  else if isText c ∨ (q.long ∧ c = '\n') then some (.go [c] .plain)
  else none

def step (q : Quote) : Mode → Char → Option Step
  | .plain, c => q.text c
  | .marks n, c =>
    if c = q.mark then some (if n = 4 then .stop [c, c] true else .go [] (.marks (n + 1)))
    else if 3 ≤ n then some (.stop (List.replicate (n - 3) q.mark) false)
    else (q.text c).map (Step.after (List.replicate n q.mark))
  | .escape, c =>
    if c = 'u' then some (.go [] (.code 4 0))
    else if c = 'U' then some (.go [] (.code 8 0))
    else if q.long ∧ isBlank c then some (.go [] .trail)
    else if q.long ∧ c = '\n' then some (.go [] .skip)
    else (escaped c).map fun d => .go [d] .plain
  | .code left point, c => do
    let point := point * 16 + (← Json.hexValue c)
    if 1 < left then return .go [] (.code (left - 1) point)
    else if point.isValidChar then return .go [Char.ofNat point] .plain
    else none
  | .trail, c =>
    if isBlank c then some (.go [] .trail) else if c = '\n' then some (.go [] .skip) else none
  | .skip, c => if isBlank c ∨ c = '\n' then some (.go [] .skip) else q.text c

def read (q : Quote) : Mode → List Char → Option (List Char × List Char)
  | .marks n, [] => if 3 ≤ n then some (List.replicate (n - 3) q.mark, []) else none
  | _, [] => none
  | mode, c :: rest =>
    match q.step mode c with
    | none => none
    | some (.go out next) => (q.read next rest).map fun (text, rest) => (out ++ text, rest)
    | some (.stop out consumed) => some (out, if consumed then rest else c :: rest)

end Quote

def readShort (mark : Char) (s : List Char) : Option (String × List Char) :=
  (Quote.read ⟨mark, false⟩ .plain s).map fun (text, rest) => (String.ofList text, rest)

/-- A quoted text, after its first mark. A line break right after three marks does not count. -/
def readQuoted (mark : Char) (s : List Char) : Option (String × List Char) :=
  match s with
  | a :: b :: rest =>
    if a = mark ∧ b = mark then
      let rest := match rest with
        | '\n' :: more => more
        | rest => rest
      (Quote.read ⟨mark, true⟩ .plain rest).map fun (text, rest) => (String.ofList text, rest)
    else readShort mark s
  | s => readShort mark s

end AccessControl.Toml
