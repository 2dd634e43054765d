import AccessControl.Value
import AccessControl.Text.Octets

/-! # Reading JSON

The strict grammar, over symbols, so that a document may hold damaged UTF-8 in a string. There is no
limit on nesting here. A number keeps as many digits of its significand as fit 64 bits, and what is
then left is a power of ten to multiply or divide by.
-/
namespace AccessControl.Json
open AccessControl.Text (Symbol)

def isJsonSpace (c : Char) : Bool := c == ' ' || c == '\n' || c == '\t' || c == '\r'

def skipSpace : List Symbol → List Symbol
  | some c :: rest => if isJsonSpace c then skipSpace rest else some c :: rest
  | s => s

/-- Part of a string: a character, half of a surrogate pair, or damage. -/
inductive Piece where
  | char (c : Char)
  | high (n : Nat)
  | low (n : Nat)
  | damaged

def hexValue (c : Char) : Option Nat :=
  let n := c.toNat
  if 48 ≤ n ∧ n ≤ 57 then some (n - 48)
  else if 65 ≤ n ∧ n ≤ 70 then some (n - 55)
  else if 97 ≤ n ∧ n ≤ 102 then some (n - 87)
  else none

def pieceOfUnit (n : Nat) : Piece :=
  if 0xD800 ≤ n ∧ n ≤ 0xDBFF then .high n
  else if 0xDC00 ≤ n ∧ n ≤ 0xDFFF then .low n
  else .char (Char.ofNat n)

def simpleEscape (c : Char) : Option Char :=
  if c = '"' then some '"'
  else if c = '\\' then some '\\'
  else if c = '/' then some '/'
  else if c = 'b' then some '\x08'
  else if c = 'f' then some '\x0c'
  else if c = 'n' then some '\n'
  else if c = 'r' then some '\r'
  else if c = 't' then some '\t'
  else none

def readPieces : List Symbol → Option (List Piece × List Symbol)
  | [] => none
  | none :: rest => (readPieces rest).map fun (ps, r) => (.damaged :: ps, r)
  | some c :: rest =>
    if c = '"' then some ([], rest)
    else if c = '\\' then
      match rest with
      | some 'u' :: some p :: some q :: some r :: some s :: rest => do
        let a ← hexValue p
        let b ← hexValue q
        let c ← hexValue r
        let d ← hexValue s
        let (ps, r) ← readPieces rest
        return (pieceOfUnit (a * 4096 + b * 256 + c * 16 + d) :: ps, r)
      | some e :: rest => do
        let c ← simpleEscape e
        let (ps, r) ← readPieces rest
        return (.char c :: ps, r)
      | _ => none
    else if c.toNat < 32 then none
    else (readPieces rest).map fun (ps, r) => (.char c :: ps, r)

/-- Joins the halves of surrogate pairs; fails on a half that stands alone and on damage. The
failure tells whether the closing quote is behind the reader then: damage is found there, a half
where it stands, and the search for the other half takes the next character along. -/
def joinPieces : List Piece → Except Bool (List Char)
  | [] => .ok []
  | .char c :: rest => (joinPieces rest).map (c :: ·)
  | .high h :: .low l :: rest =>
    (joinPieces rest).map (Char.ofNat (0x10000 + (h - 0xD800) * 1024 + (l - 0xDC00)) :: ·)
  | [.high _] => .error true
  | .damaged :: rest =>
    match joinPieces rest with
    | .ok _ => .error true
    | .error passed => .error passed
  | _ => .error false

/-- A string after its opening quote: its text, if it has one, and what follows. -/
def readString (s : List Symbol) : Option (Except Bool String × List Symbol) :=
  (readPieces s).map fun (ps, rest) => ((joinPieces ps).map String.ofList, rest)

def stringValue : Except Bool String → Value
  | .ok text => .string text
  | .error passed => .unreadable passed

structure Numeral where
  negative : Bool
  whole : List Nat
  fraction : List Nat
  /-- Whether a point or an exponent was written. -/
  plain : Bool
  exponent : Int

def digitValue : Symbol → Option Nat
  | some c => if '0' ≤ c ∧ c ≤ '9' then some (c.toNat - 48) else none
  | none => none

def spanDigits : List Symbol → List Nat × List Symbol
  | [] => ([], [])
  | c :: rest =>
    match digitValue c with
    | some d => let (ds, r) := spanDigits rest; (d :: ds, r)
    | none => ([], c :: rest)

def natOfDigits (ds : List Nat) : Nat := ds.foldl (fun n d => n * 10 + d) 0

/-- The exponent of a number, if there is one; fails when no digit follows its mark. -/
def readExponent : List Symbol → Option (Option Int × List Symbol)
  | some c :: rest =>
    if c = 'e' ∨ c = 'E' then
      let (negative, rest) := match rest with
        | some '+' :: r => (false, r)
        | some '-' :: r => (true, r)
        | r => (false, r)
      match spanDigits rest with
      | ([], _) => none
      | (ds, r) =>
        let n : Int := natOfDigits ds
        some (some (if negative then -n else n), r)
    else some (none, some c :: rest)
  | s => some (none, s)

/-- The fraction of a number, if there is one; fails when no digit follows its point. -/
def readFraction : List Symbol → Option (Option (List Nat) × List Symbol)
  | some '.' :: rest =>
    match spanDigits rest with
    | ([], _) => none
    | (ds, r) => some (some ds, r)
  | s => some (none, s)

/-- A number without its sign. A leading zero stands alone. -/
def readNumeral (negative : Bool) (s : List Symbol) : Option (Numeral × List Symbol) :=
  match spanDigits s with
  | ([], _) => none
  | (0 :: _ :: _, _) => none
  | (ds, rest) => do
    let (fraction, rest) ← readFraction rest
    let (exponent, rest) ← readExponent rest
    return (⟨negative, ds, fraction.getD [], fraction.isNone && exponent.isNone, exponent.getD 0⟩,
      rest)

def wordLimit : Nat := Nat.pow 2 64

/-- Digits before the point: the significand, and how many digits did not fit it. -/
def gatherWhole : Nat → Nat → List Nat → Nat × Nat
  | n, dropped, [] => (n, dropped)
  | n, dropped, d :: rest =>
    if dropped = 0 ∧ n * 10 + d < wordLimit then gatherWhole (n * 10 + d) 0 rest
    else gatherWhole n (dropped + 1) rest

/-- Digits after the point: the significand, and how many digits were added to it. -/
def gatherFraction : Nat → Nat → List Nat → Nat × Nat
  | n, added, [] => (n, added)
  | n, added, d :: rest =>
    if n * 10 + d < wordLimit then gatherFraction (n * 10 + d) (added + 1) rest else (n, added)

def greatestExponent : Nat := 2147483647

/-- Whether a number that is too large is read to its end: its exponent fits, but for the last
digit. -/
def Numeral.isRead (x : Numeral) : Bool := x.exponent.toNat / 10 ≤ greatestExponent

/-- A whole number that fits 64 bits stays whole; minus zero and all others are floating-point. -/
def Numeral.value (x : Numeral) : Value :=
  let (n, dropped) := gatherWhole 0 0 x.whole
  let float := fun (y : Binary64) => Value.float (if x.negative then y.negate else y)
  if x.plain ∧ dropped = 0 then
    if !x.negative then .int n
    else if n = 0 ∨ Nat.pow 2 63 < n then float (.ofNat n)
    else .int (-n)
  else
    let (m, added) := gatherFraction n 0 x.fraction
    match Binary64.ofScaled m (dropped - added + x.exponent) with
    | some y => float y
    | none => .unreadable x.isRead

def expect : List Char → List Symbol → Option (List Symbol)
  | [], s => some s
  | c :: word, some d :: rest => if c = d then expect word rest else none
  | _, _ => none

mutual

/-- A value and what follows it. The first argument bounds the steps; twice the length of the input
and two more are enough. -/
def readValue : Nat → List Symbol → Option (Value × List Symbol)
  | 0, _ => none
  | depth + 1, s =>
    match skipSpace s with
    | [] => none
    | none :: _ => none
    | some c :: rest =>
      if c = '{' then
        match skipSpace rest with
        | some '}' :: rest => some (.object [], rest)
        | rest => do
          let (fields, rest) ← readFields depth rest
          return ((fields.map Value.object).getD (.unreadable false), rest)
      else if c = '[' then
        match skipSpace rest with
        | some ']' :: rest => some (.array [], rest)
        | rest => (readItems depth rest).map fun (items, rest) => (.array items, rest)
      else if c = '"' then
        (readString rest).map fun (text, rest) => (stringValue text, rest)
      else if c = '-' then
        (readNumeral true rest).map fun (x, rest) => (x.value, rest)
      else if c = 'n' then (expect ['u', 'l', 'l'] rest).map (.null, ·)
      else if c = 't' then (expect ['r', 'u', 'e'] rest).map (.bool true, ·)
      else if c = 'f' then (expect ['a', 'l', 's', 'e'] rest).map (.bool false, ·)
      else (readNumeral false (some c :: rest)).map fun (x, rest) => (x.value, rest)

def readItems : Nat → List Symbol → Option (List Value × List Symbol)
  | 0, _ => none
  | depth + 1, s => do
    let (v, rest) ← readValue depth s
    match skipSpace rest with
    | some ',' :: rest => do
      let (items, rest) ← readItems depth rest
      return (v :: items, rest)
    | some ']' :: rest => return ([v], rest)
    | _ => none

/-- One field or more, and the closing brace. There are no fields when a name has no text. -/
def readFields : Nat → List Symbol → Option (Option (List (String × Value)) × List Symbol)
  | 0, _ => none
  | depth + 1, s =>
    match skipSpace s with
    | some '"' :: rest => do
      let (text, rest) ← readString rest
      let name := text.toOption
      match skipSpace rest with
      | some ':' :: rest => do
        let (v, rest) ← readValue depth rest
        match skipSpace rest with
        | some ',' :: rest => do
          let (fields, rest) ← readFields depth rest
          return (do return ((← name), v) :: (← fields), rest)
        | some '}' :: rest => return (name.map fun n => [(n, v)], rest)
        | _ => none
      | _ => none
    | _ => none

end

def read (s : List Symbol) : Option Value :=
  match readValue (2 * s.length + 2) s with
  | some (v, rest) => if (skipSpace rest).isEmpty then some v else none
  | none => none

def readText (s : String) : Option Value := read (Text.symbolsOfText s)

def readOctets (bs : Text.Octets) : Option Value := read (Text.symbolsOf bs)

end AccessControl.Json
