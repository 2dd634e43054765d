import AccessControl.AuthError
import AccessControl.Json.Record

/-! # Subjects and objects

Who may be granted something, and what it is granted on.
-/
namespace AccessControl

inductive SubjectType where
  | user
  | group
  | thing
  deriving DecidableEq, Repr

namespace SubjectType

def all : List SubjectType := [user, group, thing]

def name : SubjectType → String
  | user => "user"
  | group => "group"
  | thing => "thing"

def ofName? (s : String) : Option SubjectType := all.find? fun t => t.name == s

def parse (s : String) : Result SubjectType :=
  match ofName? s with
  | some t => .ok t
  | none => .error (.malformedEntity s!"unknown subject type '{s}'")

def toValue (t : SubjectType) : Value := .string t.name

/-- A subject type in a document; `isEmpty` tells the empty content of the longer form. -/
def ofValue (isEmpty : Value → Bool) (v : Value) : Option SubjectType :=
  (v.asName isEmpty (all.map name)).bind ofName?

theorem ofName?_name (t : SubjectType) : ofName? t.name = some t := by cases t <;> decide

theorem name_injective {a b : SubjectType} (h : a.name = b.name) : a = b := by
  have := ofName?_name a
  rw [h, ofName?_name] at this
  exact (Option.some.inj this).symm

end SubjectType

/-- A subject: a user, a group or a thing under its name. -/
structure Principal where
  kind : SubjectType
  id : String
  deriving DecidableEq, Repr

def Principal.text (p : Principal) : String := s!"{p.kind.name}:{p.id}"

structure ObjectRef where
  objectType : String
  objectId : String
  deriving DecidableEq, Repr

namespace ObjectRef

def text (o : ObjectRef) : String := s!"{o.objectType}:{o.objectId}"

def splitColon : List Char → Option (List Char × List Char)
  | [] => none
  | ':' :: rest => some ([], rest)
  | c :: rest => (splitColon rest).map fun (a, b) => (c :: a, b)

/-- Reads `type:id`, where neither part is empty and the first colon ends the type. -/
def parse (s : String) : Result ObjectRef :=
  match splitColon s.toList with
  | some (c :: a, d :: b) => .ok ⟨String.ofList (c :: a), String.ofList (d :: b)⟩
  | _ => .error (.malformedEntity s!"object '{s}' is not of the form type:id")

def toValue (o : ObjectRef) : Value :=
  .object [("object_type", .string o.objectType), ("object_id", .string o.objectId)]

def layout : Layout := ⟨[("object_type", .required), ("object_id", .required)], false, true⟩

def ofValue (v : Value) : Option ObjectRef := do
  let fields ← layout.read v
  let objectType ← Value.need "object_type" Value.asString fields
  let objectId ← Value.need "object_id" Value.asString fields
  return ⟨objectType, objectId⟩

end ObjectRef
end AccessControl
