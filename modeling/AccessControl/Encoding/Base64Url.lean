import AccessControl.Text.Octets

/-! # Base64 for URLs

The alphabet that is safe in URLs, without padding. Three octets are four characters; one or two
octets left over are two or three characters whose spare bits are zero. Reading refuses every other
text, so each run of octets has exactly one written form.
-/
namespace AccessControl.Base64Url
open AccessControl.Text (Octets)

def digit (n : Nat) : Char :=
  if n < 26 then Char.ofNat (n + 65)
  else if n < 52 then Char.ofNat (n + 71)
  else if n < 62 then Char.ofNat (n - 4)
  else if n = 62 then '-'
  else '_'

def value (c : Char) : Option Nat :=
  let n := c.toNat
  if 65 ≤ n ∧ n ≤ 90 then some (n - 65)
  else if 97 ≤ n ∧ n ≤ 122 then some (n - 71)
  else if 48 ≤ n ∧ n ≤ 57 then some (n + 4)
  else if c = '-' then some 62
  else if c = '_' then some 63
  else none

def encode : Octets → List Char
  | a :: b :: c :: rest =>
    digit (a.toNat / 4) :: digit (a.toNat % 4 * 16 + b.toNat / 16) ::
      digit (b.toNat % 16 * 4 + c.toNat / 64) :: digit (c.toNat % 64) :: encode rest
  | [a, b] =>
    [digit (a.toNat / 4), digit (a.toNat % 4 * 16 + b.toNat / 16), digit (b.toNat % 16 * 4)]
  | [a] => [digit (a.toNat / 4), digit (a.toNat % 4 * 16)]
  | [] => []

/-- Refuses characters outside the alphabet, a lone last character and spare bits that are set. -/
def decode : List Char → Option Octets
  | p :: q :: r :: s :: rest => do
    let w ← value p
    let x ← value q
    let y ← value r
    let z ← value s
    let tail ← decode rest
    return UInt8.ofNat (w * 4 + x / 16) :: UInt8.ofNat (x % 16 * 16 + y / 4) ::
      UInt8.ofNat (y % 4 * 64 + z) :: tail
  | [p, q, r] => do
    let w ← value p
    let x ← value q
    let y ← value r
    if y % 4 = 0 then
      return [UInt8.ofNat (w * 4 + x / 16), UInt8.ofNat (x % 16 * 16 + y / 4)]
    else none
  | [p, q] => do
    let w ← value p
    let x ← value q
    if x % 16 = 0 then return [UInt8.ofNat (w * 4 + x / 16)] else none
  | [_] => none
  | [] => some []

theorem value_digit {n : Nat} (h : n < 64) : value (digit n) = some n := by
  revert n; decide

end AccessControl.Base64Url
