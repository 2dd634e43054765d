import AccessControl.Text.Octets

/-! # Text for terminals

A terminal takes control sequences in a text as orders: to write in bold, to change its title. Lines
are made of runs with an emphasis, which are written with such sequences. Where no terminal reads
the text they are taken out again by `plain`, and with them all other sequences that the text holds.
-/
namespace AccessControl.Terminal

inductive Run where
  | text (s : String)
  | strong (s : String)
  | heading (s : String)

abbrev Line := List Run

namespace Run

def length : Run → Nat
  | text s | strong s | heading s => s.length

def marked : Run → String
  | text s => s
  | strong s => "\x1b[1m" ++ s ++ "\x1b[0m"
  | heading s => "\x1b[1m\x1b[4m" ++ s ++ "\x1b[0m"

end Run

def width (l : Line) : Nat := l.foldl (fun n r => n + r.length) 0

def marked (l : Line) : String := String.join (l.map Run.marked)

def spaces (n : Nat) : String := String.ofList (List.replicate n ' ')

def hang (n : Nat) (s : String) : String :=
  String.ofList (s.toList.flatMap fun c => if c = '\n' then '\n' :: List.replicate n ' ' else [c])

inductive State where
  /-- In no sequence. -/
  | ground
  | escape
  | escapeMiddle
  /-- In the parameters of an order, up to the letter that names it. -/
  | order
  | device
  | deviceParameters
  | deviceMiddle
  /-- In text that is not for the screen. -/
  | string
  /-- In text for the system around the terminal, which may also end with a bell. -/
  | command
  deriving DecidableEq, Repr

/-- The last octet of the short form of the mark that ends a string. -/
def stringEnd : UInt8 := 0x9C

def isDelete (c : Char) : Bool := c == '\x7f'

def isWide (c : Char) : Bool := '\x7f' < c

def afterEscape (c : Char) : State :=
  if c < ' ' ∨ isDelete c then .escape
  else if c < '0' then .escapeMiddle
  else if c = '[' then .order
  else if c = ']' then .command
  else if c = 'P' then .device
  else if c ∈ ['X', '^', '_'] then .string
  else .ground

/-- Where an ASCII character leads that does not break off the sequence. -/
def stay : State → Char → State
  | .ground, _ => .ground
  | .escape, c => afterEscape c
  | .escapeMiddle, c => if c < '0' ∨ isDelete c then .escapeMiddle else .ground
  | .order, c => if c < '@' ∨ isDelete c then .order else .ground
  | .device, c =>
    if c < ' ' ∨ isDelete c then .device
    else if c < '0' then .deviceMiddle
    else if c < '@' then .deviceParameters
    else .string
  | .deviceParameters, c =>
    if c < ' ' ∨ isDelete c then .deviceParameters
    else if c < '0' then .deviceMiddle
    else if c < '<' then .deviceParameters
    else .string
  | .deviceMiddle, c => if c < '0' ∨ isDelete c then .deviceMiddle else .string
  | .string, _ => .string
  | .command, c => if c = '\x07' then .ground else .command

/-- Where a character leads. Two controls break off every sequence, and one begins a new one. A
character of several octets only matters in a string, which one of them may end. -/
def next (s : State) (c : Char) : State :=
  if isWide c then (if s = .string ∧ stringEnd ∈ Text.encodeChar c then .ground else s)
  else if c = '\x18' ∨ c = '\x1a' then .ground
  else if c = '\x1b' then .escape
  else stay s c

def isBreak (c : Char) : Bool := c == '\t' || c == '\n' || c == '\x0c' || c == '\r'

def shows : State → Char → Bool
  | .ground, c => isBreak c || (' ' ≤ c && !isDelete c)
  | .escape, c | .escapeMiddle, c | .order, c => isBreak c
  | _, _ => false

/-- The characters that are written. Once one is, those after it are taken as text up to the next
control, although a sequence that a line break fell into has not ended; it goes on there, unless a
character of several octets came between. -/
def written (writing : Bool) (s : State) : List Char → List Char
  | [] => []
  | c :: rest =>
    if writing && shows .ground c then c :: written true (if isWide c then .ground else s) rest
    else if shows s c then c :: written true (next s c) rest
    else written false (next s c) rest

def plain (s : String) : String := String.ofList (written false .ground s.toList)

end AccessControl.Terminal
