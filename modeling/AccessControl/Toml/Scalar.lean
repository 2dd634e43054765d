import AccessControl.Calendar.Text
import AccessControl.Toml.Quoted

/-! # Scalars in TOML

Numbers, and dates and times. Whole numbers have 64 bits and a sign; a date or a time is kept as its
text in a record of one field.
-/
namespace AccessControl.Toml
open AccessControl.Instant (padded)
open AccessControl.Text (isDigit digitsValue)

def readCount (width least greatest : Nat) (s : List Char) : Option (Nat × List Char) :=
  let ds := s.take width
  if ds.length = width ∧ ds.all isDigit then
    let n := digitsValue ds
    if least ≤ n ∧ n ≤ greatest then some (n, s.drop width) else none
  else none

def readDate (s : List Char) : Option (List Char × List Char) := do
  let (year, s) ← readCount 4 0 9999 s
  let (month, s) ← readCount 2 1 12 (← Instant.literal '-' s)
  let (day, s) ← readCount 2 1 (Date.daysInMonth year month) (← Instant.literal '-' s)
  return (padded 4 year ++ '-' :: padded 2 month ++ '-' :: padded 2 day, s)

/-- The fraction of a second, to nine digits and without zeros at its end. -/
def readSecondFraction (s : List Char) : Option (List Char × List Char) :=
  match s with
  | '.' :: rest =>
    let ds := rest.takeWhile isDigit
    let kept := ((ds.take 9).reverse.dropWhile (· == '0')).reverse
    if ds.isEmpty then none
    else some (if kept.isEmpty then [] else '.' :: kept, rest.drop ds.length)
  | s => some ([], s)

def readTime (s : List Char) : Option (List Char × List Char) := do
  let (hour, s) ← readCount 2 0 23 s
  let (minute, s) ← readCount 2 0 59 (← Instant.literal ':' s)
  let (second, s) ← readCount 2 0 60 (← Instant.literal ':' s)
  let (fraction, s) ← readSecondFraction s
  return (padded 2 hour ++ ':' :: padded 2 minute ++ ':' :: padded 2 second ++ fraction, s)

/-- An offset from universal time, if there is one. No offset is written with a plus. -/
def readZone (s : List Char) : Option (List Char × List Char) :=
  match s with
  | c :: rest =>
    if c = 'Z' ∨ c = 'z' then some (['Z'], rest)
    else if c = '+' ∨ c = '-' then do
      let (hour, rest) ← readCount 2 0 23 rest
      let (minute, rest) ← readCount 2 0 59 (← Instant.literal ':' rest)
      let sign := if hour = 0 ∧ minute = 0 then '+' else c
      return (sign :: padded 2 hour ++ ':' :: padded 2 minute, rest)
    else some ([], s)
  | [] => some ([], [])

def readTimeOfDate (s : List Char) : Option (List Char × List Char) :=
  match s with
  | c :: rest =>
    if c = 'T' ∨ c = 't' ∨ c = ' ' then
      match readTime rest with
      | some (time, rest) => (readZone rest).map fun (zone, rest) => ('T' :: time ++ zone, rest)
      | none => some ([], s)
    else some ([], s)
  | [] => some ([], [])

def readMoment (s : List Char) : Option (List Char × List Char) :=
  match readDate s with
  | some (date, rest) => (readTimeOfDate rest).map fun (time, rest) => (date ++ time, rest)
  | none => readTime s

def momentField : String := "$__toml_private_datetime"

def momentValue (text : List Char) : Value := .object [(momentField, .string (String.ofList text))]

/-- Digits with single underscores between them, and what follows. -/
def spanDigits (isDigit : Char → Bool) : List Char → List Char × List Char
  | [] => ([], [])
  | '_' :: d :: rest =>
    if isDigit d then
      let (ds, r) := spanDigits isDigit rest
      (d :: ds, r)
    else ([], '_' :: d :: rest)
  | c :: rest =>
    if isDigit c then let (ds, r) := spanDigits isDigit rest; (c :: ds, r) else ([], c :: rest)

def readDigits (isDigit : Char → Bool) (s : List Char) : Option (List Char × List Char) :=
  match s with
  | c :: _ => if isDigit c then some (spanDigits isDigit s) else none
  | [] => none

def readWhole (s : List Char) : Option (List Char × List Char) :=
  match s with
  | '0' :: rest => some (['0'], rest)
  | s => readDigits isDigit s

def readSign : List Char → Bool × List Char
  | '+' :: rest => (false, rest)
  | '-' :: rest => (true, rest)
  | s => (false, s)

def leastInt : Int := -9223372036854775808

def greatestInt : Int := 9223372036854775807

def intValue (z : Int) : Option Value :=
  if leastInt ≤ z ∧ z ≤ greatestInt then some (.int z) else none

def baseOf : Char → Option Nat
  | 'x' => some 16
  | 'o' => some 8
  | 'b' => some 2
  | _ => none

def isDigitOf (base : Nat) (c : Char) : Bool := (Json.hexValue c).any (· < base)

def valueIn (base : Nat) (ds : List Char) : Nat :=
  ds.foldl (fun n c => n * base + (Json.hexValue c).getD 0) 0

def readBased (s : List Char) : Option (Option (Value × List Char)) :=
  match s with
  | '0' :: letter :: rest =>
    (baseOf letter).map fun base => do
      let (ds, rest) ← readDigits (isDigitOf base) rest
      return (← intValue (valueIn base ds), rest)
  | _ => none

def startsWith : List Char → List Char → Option (List Char)
  | [], s => some s
  | c :: word, d :: rest => if c = d then startsWith word rest else none
  | _, [] => none

def readSpecial (negative : Bool) (s : List Char) : Option (Value × List Char) :=
  match startsWith ['i', 'n', 'f'] s, startsWith ['n', 'a', 'n'] s with
  | some rest, _ => some (.float (.infinite negative), rest)
  | _, some rest => some (.float .nan, rest)
  | _, _ => none

def readPoint (s : List Char) : Option (Option (List Char) × List Char) :=
  match s with
  | '.' :: rest => (readDigits isDigit rest).map fun (ds, rest) => (some ds, rest)
  | s => some (none, s)

def readPower (s : List Char) : Option (Option Int × List Char) :=
  match s with
  | c :: rest =>
    if c = 'e' ∨ c = 'E' then do
      let (negative, rest) := readSign rest
      let (ds, rest) ← readDigits isDigit rest
      let n : Int := digitsValue ds
      return (some (if negative then -n else n), rest)
    else some (none, s)
  | [] => some (none, [])

/-- A floating-point number; too large a number is refused, unless it is negative. -/
def floatValue (negative : Bool) (whole fraction : List Char) (power : Int) : Option Value :=
  let x := Binary64.ofDecimal negative (digitsValue (whole ++ fraction)) (power - fraction.length)
  if x = .infinite false then none else some (.float x)

def readDecimal (s : List Char) : Option (Value × List Char) :=
  let (negative, s) := readSign s
  match readWhole s with
  | none => readSpecial negative s
  | some (whole, s) => do
    let (fraction, s) ← readPoint s
    let (power, s) ← readPower s
    if fraction.isNone ∧ power.isNone then
      let n : Int := digitsValue whole
      return (← intValue (if negative then -n else n), s)
    else return (← floatValue negative whole (fraction.getD []) (power.getD 0), s)

def readNumber (s : List Char) : Option (Value × List Char) := (readBased s).getD (readDecimal s)

def readPlain (s : List Char) : Option (Value × List Char) :=
  match startsWith ['t', 'r', 'u', 'e'] s, startsWith ['f', 'a', 'l', 's', 'e'] s with
  | some rest, _ => some (.bool true, rest)
  | _, some rest => some (.bool false, rest)
  | _, _ =>
    match readMoment s with
    | some (text, rest) => some (momentValue text, rest)
    | none => readNumber s

end AccessControl.Toml
