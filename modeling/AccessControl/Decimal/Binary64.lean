/-! # Binary floating point with 64 bits

A finite number is a whole significand below `2 ^ 53` times a power of two not below `2 ^ (-1074)`.
Everything is computed on whole numbers, and `ofRatio` is the only place that rounds.
-/
namespace AccessControl

inductive Binary64 where
  | finite (negative : Bool) (significand : Nat) (exponent : Int)
  | infinite (negative : Bool)
  | nan
  deriving DecidableEq, Repr

namespace Binary64

def leastExponent : Int := -1074

def greatestExponent : Int := 971

def zero (negative : Bool) : Binary64 := .finite negative 0 leastExponent

def scaleRatio (num den : Nat) (e : Int) : Nat × Nat :=
  if 0 ≤ e then (num, den * Nat.pow 2 e.toNat) else (num * Nat.pow 2 (-e).toNat, den)

/-- The finite number with this significand and exponent, or infinity when the exponent is too
large. -/
def assemble (negative : Bool) (m : Nat) (e : Int) : Binary64 :=
  if greatestExponent < e then .infinite negative else .finite negative m e

/-- The number nearest to `num / den`; of two that are equally near, the one with the even
significand. -/
def ofRatio (negative : Bool) (num den : Nat) : Binary64 :=
  if num = 0 then zero negative
  else
    let guess := max ((Nat.log2 num : Int) - (Nat.log2 den : Int) - 53) leastExponent
    let first := scaleRatio num den guess
    let e := if Nat.pow 2 53 ≤ first.1 / first.2 then guess + 1 else guess
    let r := scaleRatio num den e
    let q := r.1 / r.2
    let rest := r.1 % r.2
    let up := r.2 < 2 * rest || (r.2 == 2 * rest && q % 2 == 1)
    let m := if up then q + 1 else q
    if m = Nat.pow 2 53 then assemble negative (Nat.pow 2 52) (e + 1) else assemble negative m e

def ofNat (n : Nat) : Binary64 := ofRatio false n 1

def isZero : Binary64 → Bool
  | .finite _ m _ => m == 0
  | _ => false

def isInfinite : Binary64 → Bool
  | .infinite _ => true
  | _ => false

def negate : Binary64 → Binary64
  | .finite s m e => .finite (!s) m e
  | .infinite s => .infinite (!s)
  | .nan => .nan

def ratio (m : Nat) (e : Int) : Nat × Nat :=
  if 0 ≤ e then (m * Nat.pow 2 e.toNat, 1) else (m, Nat.pow 2 (-e).toNat)

def mul : Binary64 → Binary64 → Binary64
  | .finite s m e, .finite s' m' e' =>
    let a := ratio m e
    let b := ratio m' e'
    ofRatio (s != s') (a.1 * b.1) (a.2 * b.2)
  | _, _ => .nan

/-- The quotient of finite numbers by numbers other than zero, rounded once. -/
def div : Binary64 → Binary64 → Binary64
  | .finite s m e, .finite s' m' e' =>
    let a := ratio m e
    let b := ratio m' e'
    if b.1 = 0 then .nan else ofRatio (s != s') (a.1 * b.2) (a.2 * b.1)
  | _, _ => .nan

def powerOfTen (k : Nat) : Binary64 := ofRatio false (Nat.pow 10 k) 1

/-- Divides by `10 ^ k`, in steps of `10 ^ 308`; after four steps nothing is left of any number. -/
def scaleDown : Nat → Binary64 → Nat → Binary64
  | 0, x, _ => x
  | steps + 1, x, k =>
    if k ≤ 308 then x.div (powerOfTen k)
    else if x.isZero then x
    else scaleDown steps (x.div (powerOfTen 308)) (k - 308)

def scaleUp (x : Binary64) (k : Nat) : Option Binary64 :=
  if k ≤ 308 then
    let y := x.mul (powerOfTen k)
    if y.isInfinite then none else some y
  else if x.isZero then some x
  else none

/-- The significand rounded to a number, then scaled by a power of ten with one more rounding. -/
def ofScaled (significand : Nat) (exponent : Int) : Option Binary64 :=
  if 0 ≤ exponent then scaleUp (ofNat significand) exponent.toNat
  else some (scaleDown 5 (ofNat significand) (-exponent).toNat)

/-- The number nearest to `digits * 10 ^ exponent`. Powers of ten that no number comes near are not
computed. -/
def ofDecimal (negative : Bool) (digits : Nat) (exponent : Int) : Binary64 :=
  let magnitude : Int := (Nat.toDigits 10 digits).length + exponent
  if digits = 0 ∨ magnitude < -330 then zero negative
  else if 310 < magnitude then .infinite negative
  else if 0 ≤ exponent then ofRatio negative (digits * Nat.pow 10 exponent.toNat) 1
  else ofRatio negative digits (Nat.pow 10 (-exponent).toNat)

end Binary64
end AccessControl
