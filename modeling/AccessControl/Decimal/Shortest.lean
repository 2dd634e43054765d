import AccessControl.Decimal.Binary64

/-! # Shortest decimals

The fewest digits that read back as a given number: the coarsest decimal grid with a point among the
reals that round to the number, and of the points of that grid the nearest. Positional notation is
used from `1e-5` up to sixteen digits before the point, and an exponent outside.
-/
namespace AccessControl.Binary64

/-- Whether a grid point lies among the reals that round to the number. -/
def within (closed : Bool) (low high point : Nat) : Bool :=
  if closed then low ≤ point && point ≤ high else low < point && point < high

/-- The bounds of the reals that round to a significand, and the number itself, in quarter units. -/
def rounding (m : Nat) (e : Int) : Nat × Nat × Nat :=
  let low := if m = Nat.pow 2 52 ∧ leastExponent < e then 4 * m - 1 else 4 * m - 2
  (low, 4 * m, 4 * m + 2)

/-- Searches grids of `10 ^ k` from coarse to fine; answers the point in units of its grid, and
`k`. -/
def searchGrid (m : Nat) (e : Int) : Nat → Int → Nat × Int
  | 0, k => (0, k)
  | steps + 1, k =>
    let (low, mid, high) := rounding m e
    let unit := ratio 1 (e - 2)
    let grid : Nat × Nat := if 0 ≤ k then (Nat.pow 10 k.toNat, 1) else (1, Nat.pow 10 (-k).toNat)
    let a := unit.1 * grid.2
    let b := unit.2 * grid.1
    let below := mid * a / b
    let hit := fun p => within (m % 2 == 0) (low * a) (high * a) (p * b)
    let rest := mid * a % b
    match hit below, hit (below + 1) with
    | true, true =>
      if 2 * rest < b then (below, k)
      else if b < 2 * rest then (below + 1, k)
      else (if below % 2 = 0 then below else below + 1, k)
    | true, false => (below, k)
    | false, true => (below + 1, k)
    | false, false => searchGrid m e steps (k - 1)

/-- The digits and the power of ten of the shortest decimal for `m * 2 ^ e`. -/
def shortest (m : Nat) (e : Int) : Nat × Int :=
  let start := ((Nat.log2 m : Int) + e + 1) * 30103 / 100000 + 1
  searchGrid m e 24 start

def zeros (n : Nat) : List Char := List.replicate n '0'

def pointAfter (digits : List Char) (n : Nat) : List Char :=
  digits.take n ++ '.' :: digits.drop n

def exponentText (n : Int) : List Char := 'e' :: (toString n).toList

def decimalText (digits : List Char) (k : Int) : List Char :=
  let length : Int := digits.length
  let point := length + k
  if 0 ≤ k ∧ point ≤ 16 then digits ++ zeros k.toNat ++ ['.', '0']
  else if 0 < point ∧ point ≤ 16 then pointAfter digits point.toNat
  else if -5 < point ∧ point ≤ 0 then '0' :: '.' :: zeros (-point).toNat ++ digits
  else if digits.length = 1 then digits ++ exponentText (point - 1)
  else pointAfter digits 1 ++ exponentText (point - 1)

def text : Binary64 → Option (List Char)
  | .finite negative m e =>
    let body :=
      if m = 0 then ['0', '.', '0']
      else
        let (digits, k) := shortest m e
        decimalText (Nat.toDigits 10 digits) k
    some (if negative then '-' :: body else body)
  | _ => none

end AccessControl.Binary64
