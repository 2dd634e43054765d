/-! # Text in octets

Octets read as UTF-8 without refusing anything: an octet that belongs to no character becomes
`none`. A reader that walks the result finds every ASCII character where it stands in the octets, so
it can skip damaged text in places that nobody looks at.
-/
namespace AccessControl.Text

abbrev Octets := List UInt8

abbrev Symbol := Option Char

def encodeChar (c : Char) : Octets :=
  let n := c.toNat
  if n < 0x80 then [UInt8.ofNat n]
  else if n < 0x800 then [UInt8.ofNat (0xC0 + n / 64), UInt8.ofNat (0x80 + n % 64)]
  else if n < 0x10000 then
    [UInt8.ofNat (0xE0 + n / 4096), UInt8.ofNat (0x80 + n / 64 % 64), UInt8.ofNat (0x80 + n % 64)]
  else
    [UInt8.ofNat (0xF0 + n / 262144), UInt8.ofNat (0x80 + n / 4096 % 64),
      UInt8.ofNat (0x80 + n / 64 % 64), UInt8.ofNat (0x80 + n % 64)]

def octetsOf (s : String) : Octets := s.toList.flatMap encodeChar

def isContinuation (b : UInt8) : Bool := 0x80 ≤ b && b ≤ 0xBF

/-- The character that the payload bits spell, unless it has a shorter form or is a surrogate. -/
def spell (least : Nat) (n : Nat) : Option Char :=
  if least ≤ n ∧ n.isValidChar then some (Char.ofNat n) else none

/-- The first character of a run of octets and the number of octets after its first one. -/
def firstChar : Octets → Option (Char × Nat)
  | [] => none
  | a :: rest =>
    if a < 0x80 then some (Char.ofNat a.toNat, 0)
    else if a < 0xC0 then none
    else if a < 0xE0 then
      match rest with
      | b :: _ =>
        if isContinuation b then
          (spell 0x80 ((a.toNat - 0xC0) * 64 + (b.toNat - 0x80))).map (·, 1)
        else none
      | _ => none
    else if a < 0xF0 then
      match rest with
      | b :: c :: _ =>
        if isContinuation b && isContinuation c then
          (spell 0x800 ((a.toNat - 0xE0) * 4096 + (b.toNat - 0x80) * 64 + (c.toNat - 0x80))).map
            (·, 2)
        else none
      | _ => none
    else if a < 0xF8 then
      match rest with
      | b :: c :: d :: _ =>
        if isContinuation b && isContinuation c && isContinuation d then
          (spell 0x10000 ((a.toNat - 0xF0) * 262144 + (b.toNat - 0x80) * 4096 +
            (c.toNat - 0x80) * 64 + (d.toNat - 0x80))).map (·, 3)
        else none
      | _ => none
    else none

def symbolsOf : Octets → List Symbol
  | [] => []
  | a :: rest =>
    match firstChar (a :: rest) with
    | some (c, extra) => some c :: symbolsOf (rest.drop extra)
    | none => none :: symbolsOf rest
termination_by bs => bs.length
decreasing_by all_goals simp_wf; try omega

/-- The text of a run of symbols, if every one of them is a character. -/
def textOf (symbols : List Symbol) : Option String :=
  (symbols.mapM id).map String.ofList

def decode (bs : Octets) : Option String := textOf (symbolsOf bs)

def beginsLong (a b : UInt8) : Bool :=
  isContinuation b && 0xE0 ≤ a && a ≤ 0xF4 && !(a == 0xE0 && b < 0xA0) &&
    !(a == 0xED && 0x9F < b) &&
    !(a == 0xF0 && b < 0x90) && !(a == 0xF4 && 0x8F < b)

/-- How many octets after the first one belong with it, where no character begins: as many as some
character begins with. -/
def damagedTail : Octets → Nat
  | a :: b :: rest =>
    if beginsLong a b then (if 0xF0 ≤ a && rest.head?.any isContinuation then 2 else 1) else 0
  | _ => 0

def replacement : Char := '\ufffd'

/-- The characters of octets, where each damaged place is shown as one replacement character. -/
def shownChars : Octets → List Char
  | [] => []
  | a :: rest =>
    match firstChar (a :: rest) with
    | some (c, extra) => c :: shownChars (rest.drop extra)
    | none => replacement :: shownChars (rest.drop (damagedTail (a :: rest)))
termination_by bs => bs.length
decreasing_by all_goals simp_wf; try omega

def shown (bs : Octets) : String := String.ofList (shownChars bs)

def symbolsOfText (s : String) : List Symbol := s.toList.map some

end AccessControl.Text
