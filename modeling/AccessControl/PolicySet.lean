import AccessControl.Policy

/-! # Sets of policies

Policies collected for look-up: by the type of their object, then by its identifier, and there in
the order in which they came.
-/
namespace AccessControl

structure PolicySet where
  byType : Dict String (Dict String (List Policy))

namespace PolicySet

def empty : PolicySet := ⟨.empty⟩

def on (s : PolicySet) (o : ObjectRef) : List Policy :=
  ((s.byType.get? o.objectType).bind (·.get? o.objectId)).getD []

def insert (s : PolicySet) (p : Policy) : PolicySet :=
  let ofType := (s.byType.get? p.object.objectType).getD .empty
  ⟨s.byType.insert p.object.objectType (ofType.insert p.object.objectId (s.on p.object ++ [p]))⟩

def ofList (ps : List Policy) : PolicySet := ps.foldl insert empty

def toList (s : PolicySet) : List Policy :=
  s.byType.values.flatMap fun ofType => ofType.values.flatMap id

/-- The oldest policy that grants an action on an object. -/
def grantFor (s : PolicySet) (o : ObjectRef) (action : String) : Option Policy :=
  (s.on o).find? fun p => p.action == action

def allows (s : PolicySet) (o : ObjectRef) (action : String) : Bool := (s.grantFor o action).isSome

def size (s : PolicySet) : Nat := s.toList.length

def isEmpty (s : PolicySet) : Bool := s.byType.isEmpty

def objectTypes (s : PolicySet) : List String := s.byType.keys

end PolicySet
end AccessControl
