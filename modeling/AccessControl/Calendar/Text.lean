import AccessControl.Calendar.Instant
import AccessControl.Text.Blank
import AccessControl.Text.Digits

/-! # Instants in text

Instants are written in universal time with a `Z` and as many fractional digits, 0, 3, 6 or 9, as
they need; years outside four digits carry a sign. Reading allows more: blanks around the parts, `t`
or a blank for `T`, any count of fractional digits, and offsets from universal time.
-/
namespace AccessControl.Instant
open AccessControl.Text (isSpace isDigit digitsValue)

def padded (width n : Nat) : List Char :=
  let digits := Nat.toDigits 10 n
  List.replicate (width - digits.length) '0' ++ digits

def yearText (y : Int) : List Char :=
  if 0 ≤ y ∧ y ≤ 9999 then padded 4 y.natAbs
  else (if y < 0 then '-' else '+') :: padded 4 y.natAbs

def fractionText (nanos : Nat) : List Char :=
  if nanos = 0 then []
  else if nanos % 1000000 = 0 then '.' :: padded 3 (nanos / 1000000)
  else if nanos % 1000 = 0 then '.' :: padded 6 (nanos / 1000)
  else '.' :: padded 9 nanos

def dateText (d : Date) : List Char :=
  yearText d.year ++ '-' :: padded 2 d.month ++ '-' :: padded 2 d.day

/-- The time of day of a second of the day; an inserted second is the sixtieth of its minute. -/
def clockText (second nanos : Nat) : List Char :=
  let extra := nanos / nanosPerSecond
  padded 2 (second / 3600) ++ ':' :: padded 2 (second / 60 % 60) ++ ':' ::
    padded 2 (second % 60 + extra) ++ fractionText (nanos % nanosPerSecond)

def secondsPerDay : Int := 86400

def date (t : Instant) : Date := Date.ofDays (t.seconds / secondsPerDay)

def secondOfDay (t : Instant) : Nat := (t.seconds % secondsPerDay).toNat

def chars (t : Instant) : List Char :=
  dateText t.date ++ 'T' :: clockText t.secondOfDay t.nanos ++ ['Z']

def text (t : Instant) : String := String.ofList t.chars

def display (t : Instant) : String :=
  String.ofList (dateText t.date ++ ' ' :: clockText t.secondOfDay t.nanos ++ [' ', 'U', 'T', 'C'])

def trimStart : List Char → List Char := List.dropWhile isSpace

def number (width : Nat) (s : List Char) : Option (Nat × List Char) :=
  let ds := (s.take width).takeWhile isDigit
  if ds.isEmpty then none else some (digitsValue ds, s.drop ds.length)

/-- A year: four digits at most, or a sign and any number of them. -/
def readYear (s : List Char) : Option (Int × List Char) :=
  match trimStart s with
  | '-' :: rest => (number rest.length rest).map fun (n, r) => (-(n : Int), r)
  | '+' :: rest => (number rest.length rest).map fun (n, r) => ((n : Int), r)
  | rest => (number 4 rest).map fun (n, r) => ((n : Int), r)

def literal (c : Char) (s : List Char) : Option (List Char) :=
  match s with
  | d :: rest => if c = d then some rest else none
  | [] => none

def readPart (s : List Char) : Option (Nat × List Char) := number 2 (trimStart s)

/-- The fraction of a second in nanoseconds; digits past the ninth are ignored. -/
def readFraction (s : List Char) : Option (Nat × List Char) :=
  match s with
  | '.' :: rest =>
    let ds := rest.takeWhile isDigit
    if ds.isEmpty then none
    else some (digitsValue ((ds.take 9) ++ List.replicate (9 - ds.length) '0'), rest.drop ds.length)
  | rest => some (0, rest)

def isMinus (c : Char) : Bool := c == '-' || c == '\u2212'

def readOffset (s : List Char) : Option (Int × List Char) :=
  match s with
  | p :: q :: r :: rest =>
    if p.toUpper = 'U' ∧ q.toUpper = 'T' ∧ r.toUpper = 'C' then some (0, rest)
    else numeric s
  | s => numeric s
where
  numeric : List Char → Option (Int × List Char)
    | c :: rest =>
      if c = 'Z' ∨ c = 'z' then some (0, rest)
      else if c = '+' ∨ isMinus c then
        match rest with
        | a :: b :: rest =>
          if isDigit a && isDigit b then
            match rest.dropWhile fun c => c == ':' || isSpace c with
            | d :: e :: rest =>
              if '0' ≤ d && d ≤ '5' && isDigit e then
                let offset : Int := digitsValue [a, b] * 3600 + digitsValue [d, e] * 60
                some (if c = '+' then offset else -offset, rest)
              else none
            | _ => none
          else none
        | _ => none
      else none
    | [] => none

/-- A time of day: the second of the day and the nanoseconds after it. -/
def timeOfDay (hour minute second nanos : Nat) : Option (Nat × Nat) :=
  if 23 < hour ∨ 59 < minute ∨ 60 < second then none
  else
    let extra := second / 60
    some (hour * 3600 + minute * 60 + (second - extra), nanos + extra * nanosPerSecond)

def readChars (s : List Char) : Option Instant := do
  let (year, s) ← readYear s
  let s ← literal '-' (trimStart s)
  let (month, s) ← readPart s
  let s ← literal '-' (trimStart s)
  let (day, s) ← readPart s
  let s ← match s with
    | c :: rest => if c = 'T' ∨ c = 't' ∨ c = ' ' then some rest else none
    | [] => none
  let (hour, s) ← readPart s
  let s ← literal ':' (trimStart s)
  let (minute, s) ← readPart s
  let s ← literal ':' (trimStart s)
  let (second, s) ← readPart s
  let (nanos, s) ← readFraction s
  let (offset, s) ← readOffset (trimStart s)
  if !(trimStart s).isEmpty ∨ offset ≤ -secondsPerDay ∨ secondsPerDay ≤ offset then none
  else
    let day : Date := ⟨year, month, day⟩
    let (second, nanos) ← timeOfDay hour minute second nanos
    let total := day.toDays * secondsPerDay + second - offset
    if day.isValid && inCalendar total then some ⟨total, nanos⟩ else none

def read (s : String) : Option Instant := readChars s.toList

end AccessControl.Instant
