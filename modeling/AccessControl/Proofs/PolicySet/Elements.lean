import AccessControl.PolicySet
import Mathlib.Data.List.Perm.Basic

/-! # Elements of policy sets

A set of policies has the elements of the list that it was made of, each as often as it was there.
To put a policy into the set replaces one list in one dictionary within another, and the rest of
both is what it was.
-/
namespace AccessControl

namespace Dict

variable {κ β γ : Type} [Indexed κ] {k : κ} {v : β}

/-- An entry takes the place of the one with its key, or goes in between. -/
theorem exists_insertEntry_eq {entries : List (κ × β)} (h : Sorted entries) (k : κ) (v : β) :
    ∃ before after, entries = before ++ (entries.find? (isAt k)).toList ++ after ∧
      insertEntry k v entries = before ++ (k, v) :: after := by
  induction entries with
  | nil => exact ⟨[], [], rfl, rfl⟩
  | cons e rest ih =>
    obtain ⟨j, w⟩ := e
    obtain ⟨hhead, htail⟩ := List.pairwise_cons.1 h
    by_cases hkj : Before k j
    · have hnone : ((j, w) :: rest).find? (isAt k) = none := by
        refine List.find?_eq_none.2 fun e he hat => ?_
        have hlater : Before k e.1 := by
          rcases List.mem_cons.1 he with rfl | he
          · exact hkj
          · exact hkj.trans (hhead e he)
        rw [isAt_iff.1 hat] at hlater
        exact Before.irrefl k hlater
      exact ⟨[], (j, w) :: rest, by rw [hnone]; rfl, by rw [insertEntry, if_pos hkj]; rfl⟩
    · by_cases hjk : Before j k
      · obtain ⟨before, after, hentries, hinsert⟩ := ih htail
        have hne : j ≠ k := fun he => Before.irrefl k (he ▸ hjk)
        refine ⟨(j, w) :: before, after, ?_, ?_⟩
        · rw [List.find?_cons, isAt_ne hne]
          exact congrArg ((j, w) :: ·) hentries
        · rw [insertEntry, if_neg hkj, if_pos hjk, hinsert]
          rfl
      · obtain rfl := eq_of_not_before hkj hjk
        refine ⟨[], rest, ?_, ?_⟩
        · rw [List.find?_cons, isAt_self]
          rfl
        · rw [insertEntry, if_neg hkj, if_neg hkj]
          rfl

theorem exists_values_insert_eq (d : Dict κ β) (k : κ) (v : β) :
    ∃ before after, d.values = before ++ (d.get? k).toList ++ after ∧
      (d.insert k v).values = before ++ v :: after := by
  obtain ⟨before, after, hentries, hinsert⟩ := exists_insertEntry_eq d.sorted k v
  refine ⟨before.map (·.2), after.map (·.2), ?_, ?_⟩
  · have hmap := congrArg (List.map (·.2)) hentries
    rw [List.map_append, List.map_append] at hmap
    rw [values, hmap, get?]
    cases d.entries.find? (isAt k) <;> rfl
  · have hmap := congrArg (List.map (·.2)) hinsert
    rwa [List.map_append, List.map_cons] at hmap

/-- A value that holds more than the one before under its key makes the whole dictionary hold that
much more. -/
theorem flatMap_values_insert_perm {d : Dict κ β} {content : β → List γ} {more : List γ}
    (h : (content v).Perm ((d.get? k).toList.flatMap content ++ more)) :
    ((d.insert k v).values.flatMap content).Perm (d.values.flatMap content ++ more) := by
  obtain ⟨before, after, hvalues, hinsert⟩ := exists_values_insert_eq d k v
  rw [hvalues, hinsert]
  simp only [List.flatMap_append, List.flatMap_cons, List.append_assoc]
  refine List.Perm.append_left _ ((h.append_right _).trans ?_)
  rw [List.append_assoc]
  exact List.Perm.append_left _ List.perm_append_comm

end Dict

namespace PolicySet

/-- A policy that is put in is added to those that the set lists, in whatever order. -/
theorem toList_insert_perm (s : PolicySet) (p : Policy) :
    (s.insert p).toList.Perm (s.toList ++ [p]) := by
  have htype :
      (s.byType.get? p.object.objectType).toList.flatMap (fun ofType => ofType.values.flatMap id) =
      ((s.byType.get? p.object.objectType).getD .empty).values.flatMap id := by
    cases s.byType.get? p.object.objectType with
    | none => rfl
    | some ofType => exact List.flatMap_singleton _ _
  have hobject :
      (((s.byType.get? p.object.objectType).getD .empty).get? p.object.objectId).toList.flatMap id =
      s.on p.object := by
    unfold on
    cases s.byType.get? p.object.objectType with
    | none => rfl
    | some ofType => cases hid : ofType.get? p.object.objectId <;> simp [hid]
  refine Dict.flatMap_values_insert_perm ?_
  rw [htype]
  refine Dict.flatMap_values_insert_perm ?_
  rw [hobject]
  exact List.Perm.refl _

theorem toList_ofList_perm (ps : List Policy) : (ofList ps).toList.Perm ps := by
  have hfold : ∀ s : PolicySet, (ps.foldl insert s).toList.Perm (s.toList ++ ps) := by
    induction ps with
    | nil => exact fun s => by simp
    | cons p rest ih =>
      intro s
      have hinsert := (toList_insert_perm s p).append_right rest
      rw [List.append_assoc, List.singleton_append] at hinsert
      exact (ih (s.insert p)).trans hinsert
  exact hfold empty

end PolicySet
end AccessControl
