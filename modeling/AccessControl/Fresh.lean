import AccessControl.Json.Writer

/-! # Fresh identifiers

Identifiers in the form of random UUIDs: 122 free bits, written with the marks of version four.
-/
namespace AccessControl.Fresh

def hexDigits (width n : Nat) : List Char :=
  (List.range width).map fun i => Json.hexDigit (n / Nat.pow 16 (width - 1 - i) % 16)

/-- The identifier of a number below `2 ^ 122`. -/
def uuid (n : Nat) : String :=
  let low := n % Nat.pow 2 62
  let high := n / Nat.pow 2 62
  String.ofList (hexDigits 8 (high / Nat.pow 2 28) ++ '-' :: hexDigits 4 (high / Nat.pow 2 12) ++
    '-' :: '4' :: hexDigits 3 high ++ '-' :: hexDigits 4 (0x8000 + low / Nat.pow 2 48) ++
    '-' :: hexDigits 12 low)

end AccessControl.Fresh
