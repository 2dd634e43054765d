import AccessControl.Decimal.Binary64

/-! # Trees of plain data

What JSON and TOML documents hold. A string or number that is well formed but denotes nothing (half
of a surrogate pair, damaged UTF-8, a number beyond the floating-point range) is kept as
`unreadable`: it is refused wherever it is looked at and does no harm in a field that nobody reads.
A reader that only tries a value goes on where it gave up, so an unreadable value also tells whether
that is behind it.
-/
namespace AccessControl

inductive Value where
  | null
  | bool (b : Bool)
  | int (z : Int)
  | float (x : Binary64)
  | string (s : String)
  | array (items : List Value)
  | object (fields : List (String × Value))
  | unreadable (passed : Bool)
  deriving Repr

namespace Value

/-- Integers outside these bounds are read as floating-point numbers. -/
def leastInt : Int := -9223372036854775808

def greatestInt : Int := 18446744073709551615

def lookup (name : String) : List (String × Value) → Option Value
  | [] => none
  | (n, v) :: rest => if n = name then some v else lookup name rest

/-- Puts a field in its place by name, over one of the same name. -/
def insertField (name : String) (v : Value) : List (String × Value) → List (String × Value)
  | [] => [(name, v)]
  | (n, w) :: rest =>
    if name < n then (name, v) :: (n, w) :: rest
    else if n < name then (n, w) :: insertField name v rest
    else (name, v) :: rest

mutual

/-- The value with the fields of every object in order of name, where the last of several fields
with one name stays. Fails on what is unreadable and on more than `depth` levels of arrays and
objects. -/
def normalize (depth : Nat) : Value → Option Value
  | .null => some .null
  | .bool b => some (.bool b)
  | .int z => some (.int z)
  | .float x => some (.float x)
  | .string s => some (.string s)
  | .unreadable _ => none
  | .array items =>
    match depth with
    | 0 => none
    | d + 1 => (normalizeItems d items).map .array
  | .object fields =>
    match depth with
    | 0 => none
    | d + 1 => (normalizeFields d [] fields).map .object

def normalizeItems (depth : Nat) : List Value → Option (List Value)
  | [] => some []
  | v :: rest => do
    let w ← normalize depth v
    let tail ← normalizeItems depth rest
    return w :: tail

def normalizeFields (depth : Nat) (done : List (String × Value)) :
    List (String × Value) → Option (List (String × Value))
  | [] => some done
  | (n, v) :: rest => do
    let w ← normalize depth v
    normalizeFields depth (insertField n w done) rest

end

inductive Attempt where
  | read
  /-- Given up, with all of the value behind the reader. -/
  | passed
  /-- Given up inside of the value. -/
  | stuck
  deriving DecidableEq, Repr

/-- What an attempt at an item means for what holds it: a reader that gives up only looks for the
end, and finds it when nothing else follows. -/
def Attempt.within (followed : Bool) : Attempt → Attempt
  | .passed => if followed then .stuck else .passed
  | a => a

mutual

/-- How the attempt at a value ends that may have at most `depth` levels of arrays and objects. -/
def attempt (depth : Nat) : Value → Attempt
  | .unreadable passed => if passed then .passed else .stuck
  | .array items =>
    match depth with
    | 0 => .stuck
    | d + 1 => attemptItems d items
  | .object fields =>
    match depth with
    | 0 => .stuck
    | d + 1 => attemptFields d fields
  | _ => .read

def attemptItems (depth : Nat) : List Value → Attempt
  | [] => .read
  | v :: rest =>
    match attempt depth v with
    | .read => attemptItems depth rest
    | a => a.within !rest.isEmpty

def attemptFields (depth : Nat) : List (String × Value) → Attempt
  | [] => .read
  | (_, v) :: rest =>
    match attempt depth v with
    | .read => attemptFields depth rest
    | a => a.within !rest.isEmpty

end

end Value
end AccessControl
