import AccessControl.Proofs.PolicyStore.Indices

/-! # Looking for a right

A set of policies finds on an object what a search through the list finds that it was made of.
Together with the indices, asking the store for a holder's policies on an object and then for an
action finds the one stored policy with that right.
-/
namespace AccessControl

namespace PolicySet

variable {s : PolicySet} {p : Policy} {o : ObjectRef}

theorem on_insert : (s.insert p).on o = s.on o ++ if p.object = o then [p] else [] := by
  unfold insert on
  by_cases htype : o.objectType = p.object.objectType
  · by_cases hid : o.objectId = p.object.objectId
    · have ho : p.object = o := by
        cases ho : p.object
        cases o
        simp only [ho] at htype hid
        simp [htype, hid]
      subst ho
      simp
    · have ho : p.object ≠ o := fun ho => hid (by rw [ho])
      cases hsub : s.byType.get? p.object.objectType with
      | none => simp [htype, hsub, ho, Dict.get?_insert_ne _ hid]
      | some ofType => simp [htype, hsub, ho, Dict.get?_insert_ne _ hid]
  · have ho : p.object ≠ o := fun ho => htype (by rw [ho])
    simp [Dict.get?_insert_ne _ htype, ho]

theorem on_foldl_insert (ps : List Policy) :
    (ps.foldl insert s).on o = s.on o ++ ps.filter fun p => p.object = o := by
  induction ps generalizing s with
  | nil => simp
  | cons p rest ih =>
    rw [List.foldl_cons, ih, on_insert, List.append_assoc, List.filter_cons]
    by_cases h : p.object = o <;> simp [h]

theorem on_ofList (ps : List Policy) (o : ObjectRef) :
    (ofList ps).on o = ps.filter fun p => p.object = o :=
  on_foldl_insert ps

end PolicySet

namespace PolicyStore

variable {s : PolicyStore} {r : Right} {id : String}

/-- The identifier of the stored policy with a right, found by looking through all policies. -/
def granting? (s : PolicyStore) (r : Right) : Option String :=
  (s.policies.values.find? fun p => p.right = r).map (·.id)

/-- Whatever list is searched: when what it can find are the stored policies with a right, it finds
the one that there is. -/
theorem Catalogued.find?_eq_some_iff (h : Catalogued s) {ps : List Policy} {f : Policy → Bool}
    (hps : ∀ p, p ∈ ps ∧ f p = true ↔ s.policies.get? p.id = some p ∧ p.right = r) :
    (ps.find? f).map (·.id) = some id ↔ ∃ p, s.policies.get? id = some p ∧ p.right = r := by
  rw [Option.map_eq_some_iff]
  constructor
  · rintro ⟨p, hp, rfl⟩
    exact ⟨p, (hps p).1 ⟨List.mem_of_find?_eq_some hp, List.find?_some hp⟩⟩
  · rintro ⟨p, hp, hr⟩
    have hid := h.id_of_get hp
    subst hid
    obtain ⟨hmem, hf⟩ := (hps p).2 ⟨hp, hr⟩
    have hfound : (ps.find? f).isSome = true := List.find?_isSome.2 ⟨p, hmem, hf⟩
    obtain ⟨q, hq⟩ := Option.isSome_iff_exists.1 hfound
    obtain ⟨hget, hqr⟩ := (hps q).1 ⟨List.mem_of_find?_eq_some hq, List.find?_some hq⟩
    exact ⟨q, hq, h.eq_of_right_eq hget hp (hqr.trans hr.symm)⟩

theorem Catalogued.granting?_eq_some_iff (h : Catalogued s) :
    s.granting? r = some id ↔ ∃ p, s.policies.get? id = some p ∧ p.right = r := by
  apply h.find?_eq_some_iff
  intro p
  rw [Dict.mem_values_iff, decide_eq_true_iff]
  constructor
  · rintro ⟨⟨k, hk⟩, hr⟩
    rw [h.id_of_get hk]
    exact ⟨hk, hr⟩
  · rintro ⟨hp, hr⟩
    exact ⟨⟨p.id, hp⟩, hr⟩

/-- Only the policies with a right decide which of them gives it. -/
theorem Catalogued.granting?_congr {s' : PolicyStore} (h : Catalogued s) (h' : Catalogued s')
    (hsame : ∀ id p, p.right = r → (s'.policies.get? id = some p ↔ s.policies.get? id = some p)) :
    s'.granting? r = s.granting? r := by
  apply Option.ext
  intro id
  rw [h'.granting?_eq_some_iff, h.granting?_eq_some_iff]
  exact exists_congr fun p => and_congr_left (hsame id p)

theorem Valid.mem_on_retrieve (h : Valid s) {holder : Principal} {o : ObjectRef} {p : Policy} :
    p ∈ (s.retrieve holder (some o)).on o ↔
      s.policies.get? p.id = some p ∧ p.holder = holder ∧ p.object = o := by
  simp only [retrieve, PolicySet.on_ofList, List.mem_filter, List.mem_filterMap, Option.all_some,
    beq_iff_eq, decide_eq_true_eq, h.heldBy_iff]
  constructor
  · rintro ⟨⟨⟨id, ⟨q, hq, hqh⟩, hp⟩, rfl⟩, -⟩
    cases hq.symm.trans hp
    rw [h.id_of_get hp]
    exact ⟨hp, hqh, rfl⟩
  · rintro ⟨hp, hh, rfl⟩
    exact ⟨⟨⟨p.id, ⟨p, hp, hh⟩, hp⟩, rfl⟩, rfl⟩

/-- The set of a holder's policies on an object finds for an action what the search through all
policies finds. -/
theorem Valid.grantFor_retrieve (h : Valid s) (holder : Principal) (o : ObjectRef)
    (action : String) :
    ((s.retrieve holder (some o)).grantFor o action).map (·.id) =
      s.granting? ⟨holder, o, action⟩ := by
  apply Option.ext
  intro id
  rw [h.granting?_eq_some_iff]
  apply h.find?_eq_some_iff
  intro p
  rw [h.mem_on_retrieve, beq_iff_eq]
  constructor
  · rintro ⟨⟨hp, rfl, rfl⟩, rfl⟩
    exact ⟨hp, rfl⟩
  · rintro ⟨hp, hr⟩
    exact ⟨⟨hp, by rw [Policy.holder, hr], by rw [Policy.object, hr]⟩, by rw [Policy.action, hr]⟩

end PolicyStore
end AccessControl
