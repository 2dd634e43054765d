import AccessControl.Value

/-! # Records in documents

How a document value is read as a record: by field name from an object, or by position from an
array. A field that occurs twice is refused, other fields are ignored or refused as the layout says.
-/
namespace AccessControl

inductive Presence where
  /-- The field must be there. -/
  | required
  /-- An object may leave the field out. -/
  | optional
  /-- The field may be left out everywhere. -/
  | defaulted
  deriving DecidableEq

structure Layout where
  fields : List (String × Presence)
  /-- Refuses an object with other fields. -/
  closed : Bool
  /-- Refuses an array with more items than fields. -/
  exact : Bool

namespace Layout

def names (l : Layout) : List String := l.fields.map (·.1)

def pick (l : Layout) (fields : List (String × Value)) : Option (List (String × Value)) :=
  let known := fields.filter fun f => f.1 ∈ l.names
  if !(decide (known.map (·.1)).Nodup) then none
  else if l.closed && known.length != fields.length then none
  else if l.fields.all fun f => f.2 != .required || (Value.lookup f.1 known).isSome then some known
  else none

def place (l : Layout) (items : List Value) : Option (List (String × Value)) :=
  if l.exact && l.fields.length < items.length then none
  else if (l.fields.drop items.length).all fun f => f.2 == .defaulted then some (l.names.zip items)
  else none

/-- The fields of a record; those that were left out are missing. -/
def read (l : Layout) : Value → Option (List (String × Value))
  | .object fields => l.pick fields
  | .array items => l.place items
  | _ => none

end Layout

namespace Value

def asString : Value → Option String
  | .string s => some s
  | _ => none

def asBool : Value → Option Bool
  | .bool b => some b
  | _ => none

def asInt (least greatest : Int) : Value → Option Int
  | .int z => if least ≤ z ∧ z ≤ greatest then some z else none
  | _ => none

def asNat (greatest : Nat) (v : Value) : Option Nat := (v.asInt 0 greatest).map Int.toNat

def asOption {α : Type} (f : Value → Option α) : Value → Option (Option α)
  | .null => some none
  | v => (f v).map some

/-- One of several names, also as an object with the name as its one field and no content. -/
def asName (isEmpty : Value → Bool) (names : List String) : Value → Option String
  | .string s => if s ∈ names then some s else none
  | .object [(s, v)] => if s ∈ names ∧ isEmpty v then some s else none
  | _ => none

def isNull : Value → Bool
  | .null => true
  | _ => false

def need {α : Type} (name : String) (f : Value → Option α) (fields : List (String × Value)) :
    Option α :=
  (lookup name fields).bind f

def orElse {α : Type} (name : String) (f : Value → Option α) (default : α)
    (fields : List (String × Value)) : Option α :=
  match lookup name fields with
  | some v => f v
  | none => some default

end Value
end AccessControl
