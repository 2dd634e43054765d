/-! # Digits

Whole numbers in decimal digits.
-/
namespace AccessControl.Text

def isDigit (c : Char) : Bool := '0' ≤ c && c ≤ '9'

def digitsValue (ds : List Char) : Nat := ds.foldl (fun n c => n * 10 + (c.toNat - 48)) 0

def greatestCount : Nat := 18446744073709551615

def readCount (s : String) : Option Nat :=
  let ds := match s.toList with
    | '+' :: rest => rest
    | cs => cs
  if ds.isEmpty ∨ !(ds.all isDigit) ∨ greatestCount < digitsValue ds then none
  else some (digitsValue ds)

end AccessControl.Text
