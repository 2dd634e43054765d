import AccessControl.Subject
import AccessControl.Dict

/-! # Policies

A policy grants its holder one action on one object. What it grants is its right; the identifier
only names the record.
-/
namespace AccessControl

/-- A holder, an object and the action that the holder may perform on it. -/
structure Right where
  holder : Principal
  object : ObjectRef
  action : String
  deriving DecidableEq, Repr

def Right.text (r : Right) : String := s!"{r.holder.text} {r.action} on {r.object.text}"

instance : Indexed Principal where
  parts p := [p.kind.name, p.id]
  parts_inj {a b} h := by
    cases a; cases b
    simp only [List.cons.injEq, and_true] at h
    simp [SubjectType.name_injective h.1, h.2]

instance : Indexed Right where
  parts r := [r.holder.kind.name, r.holder.id, r.object.objectType, r.object.objectId, r.action]
  parts_inj {a b} h := by
    obtain ⟨⟨_, _⟩, ⟨_, _⟩, _⟩ := a
    obtain ⟨⟨_, _⟩, ⟨_, _⟩, _⟩ := b
    simp only [List.cons.injEq, and_true] at h
    simp [SubjectType.name_injective h.1, h.2.1, h.2.2.1, h.2.2.2.1, h.2.2.2.2]

structure Policy where
  id : String
  right : Right
  deriving DecidableEq, Repr

namespace Policy

def holder (p : Policy) : Principal := p.right.holder

def object (p : Policy) : ObjectRef := p.right.object

def action (p : Policy) : String := p.right.action

/-- The fields that must not be empty, in the order in which they are checked. -/
def mandatory (p : Policy) : List (String × String) :=
  [("id", p.id), ("subject_id", p.holder.id), ("object_type", p.object.objectType),
    ("object_id", p.object.objectId), ("action", p.action)]

def validate (p : Policy) : Result Unit :=
  match p.mandatory.find? fun f => f.2.isEmpty with
  | some (field, _) => .error (.malformedEntity s!"policy {field} is empty")
  | none => .ok ()

def toValue (p : Policy) : Value :=
  .object [("id", .string p.id), ("subject_id", .string p.holder.id),
    ("subject_type", p.holder.kind.toValue), ("object_type", .string p.object.objectType),
    ("object_id", .string p.object.objectId), ("action", .string p.action)]

def layout : Layout :=
  ⟨[("id", .required), ("subject_id", .required), ("subject_type", .required),
    ("object_type", .required), ("object_id", .required), ("action", .required)], false, true⟩

def ofValue (v : Value) : Option Policy := do
  let fields ← layout.read v
  let id ← Value.need "id" Value.asString fields
  let subject ← Value.need "subject_id" Value.asString fields
  let kind ← Value.need "subject_type" (SubjectType.ofValue Value.isNull) fields
  let objectType ← Value.need "object_type" Value.asString fields
  let objectId ← Value.need "object_id" Value.asString fields
  let action ← Value.need "action" Value.asString fields
  return ⟨id, ⟨⟨kind, subject⟩, ⟨objectType, objectId⟩, action⟩⟩

end Policy
end AccessControl
