import AccessControl.Proofs.PolicySet.Elements
import AccessControl.Proofs.PolicyStore.Retrieval

/-! # A set of policies and the list it was collected from

Whatever a set of policies is asked, looking through the list from which it was collected gives the
same answer. The outer dictionary has a type of objects as a key from the first policy with that
type on, so it is empty only when the list is; what stands under a type and an identifier are the
policies on that one object.
-/
namespace AccessControl.PolicySet

variable {s : PolicySet} {p : Policy} {o : ObjectRef} {t action : String} {ps : List Policy}

theorem mem_objectTypes_insert :
    t ∈ (s.insert p).objectTypes ↔ t = p.object.objectType ∨ t ∈ s.objectTypes := by
  rw [objectTypes, objectTypes, Dict.mem_keys_iff, Dict.mem_keys_iff]
  simp only [insert, Dict.get?_insert_eq_some_iff]
  constructor
  · rintro ⟨ofType, ⟨rfl, -⟩ | ⟨-, hget⟩⟩
    · exact .inl rfl
    · exact .inr ⟨ofType, hget⟩
  · rintro (rfl | ⟨ofType, hget⟩)
    · exact ⟨_, .inl ⟨rfl, rfl⟩⟩
    · by_cases ht : t = p.object.objectType
      · exact ⟨_, .inl ⟨ht, rfl⟩⟩
      · exact ⟨ofType, .inr ⟨ht, hget⟩⟩

theorem mem_objectTypes_foldl_insert (ps : List Policy) :
    t ∈ (ps.foldl insert s).objectTypes ↔ t ∈ s.objectTypes ∨
      ∃ p ∈ ps, p.object.objectType = t := by
  induction ps generalizing s with
  | nil => simp
  | cons p rest ih =>
    rw [List.foldl_cons, ih, mem_objectTypes_insert]
    simp only [List.mem_cons, exists_eq_or_imp, eq_comm (a := t)]
    tauto

theorem mem_objectTypes_ofList :
    t ∈ (ofList ps).objectTypes ↔ ∃ p ∈ ps, p.object.objectType = t := by
  rw [ofList, mem_objectTypes_foldl_insert]
  exact or_iff_right List.not_mem_nil

theorem nodup_objectTypes (s : PolicySet) : s.objectTypes.Nodup := by
  refine s.byType.keys_sorted.imp ?_
  rintro t u hbefore rfl
  exact Dict.Before.irrefl t hbefore

theorem isEmpty_iff_objectTypes : s.isEmpty = true ↔ s.objectTypes = [] := by
  rw [isEmpty, Dict.isEmpty, List.isEmpty_iff, objectTypes, Dict.keys, List.map_eq_nil_iff]

theorem isEmpty_ofList : (ofList ps).isEmpty = true ↔ ps = [] := by
  rw [isEmpty_iff_objectTypes, List.eq_nil_iff_forall_not_mem]
  simp only [mem_objectTypes_ofList]
  constructor
  · intro hnone
    refine List.eq_nil_iff_forall_not_mem.2 fun p hp => ?_
    exact hnone p.object.objectType ⟨p, hp, rfl⟩
  · rintro rfl t ⟨p, hp, -⟩
    exact List.not_mem_nil hp

theorem grantFor_ofList :
    (ofList ps).grantFor o action = ps.find? fun p => p.object = o ∧ p.action = action := by
  rw [grantFor, on_ofList, List.find?_filter]
  congr 1
  funext p
  simp only [decide_eq_true_eq, beq_iff_eq]

theorem allows_ofList :
    (ofList ps).allows o action = true ↔ ∃ p ∈ ps, p.object = o ∧ p.action = action := by
  rw [allows, grantFor_ofList, List.find?_isSome]
  simp only [decide_eq_true_eq]

/-- A set answers as the list that it was collected from, repetitions and all. On an object stand
the policies on it, in the order of the list; the first of these for an action is the grant, and an
action is allowed just when there is one. The size is the length of the list, only the set of no
policies is empty, each type of object that occurs is told once, and the set has the policies of the
list, each as often as it stands there. -/
theorem collected_answers_as_list (ps : List Policy) :
    (∀ o, (ofList ps).on o = ps.filter fun p => p.object = o) ∧
    (∀ o action, (ofList ps).grantFor o action =
      ps.find? (fun p => p.object = o ∧ p.action = action) ∧
      ((ofList ps).allows o action = true ↔ ∃ p ∈ ps, p.object = o ∧ p.action = action)) ∧
    (ofList ps).size = ps.length ∧
    ((ofList ps).isEmpty = true ↔ ps = []) ∧
    ((ofList ps).objectTypes.Nodup ∧ ∀ t, t ∈ (ofList ps).objectTypes ↔
      ∃ p ∈ ps, p.object.objectType = t) ∧
    (ofList ps).toList.Perm ps := by
  have hperm := toList_ofList_perm ps
  refine ⟨on_ofList ps, fun o action => ⟨grantFor_ofList, allows_ofList⟩, ?_,
    isEmpty_ofList, ?_, hperm⟩
  · exact hperm.length_eq
  · exact ⟨nodup_objectTypes _, fun t => mem_objectTypes_ofList⟩

end AccessControl.PolicySet
