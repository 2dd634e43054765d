import AccessControl.Proofs.PolicyStore.Indices

/-! # Saving and removing policies

A policy conflicts with the stored ones exactly when one of them has its identifier or its right. A
right leads to the one policy that is to be removed, whatever it is called.
-/
namespace AccessControl.PolicyStore

variable {s s' : PolicyStore} {p : Policy} {id : String}

theorem get?_policies_save (hs : s.save p = .ok s') {j : String} {q : Policy} :
    s'.policies.get? j = some q ↔ (j = p.id ∧ q = p) ∨ s.policies.get? j = some q := by
  obtain ⟨_, hid, _, rfl⟩ := save_eq_ok_iff.1 hs
  have hnew := Dict.contains_eq_false_iff.1 hid
  rw [Dict.get?_insert_eq_some_iff]
  by_cases hj : j = p.id
  · simp [hj, hnew, eq_comm]
  · simp [hj]

theorem Catalogued.get?_policies_remove (h : Catalogued s) (hs : s.remove p = .ok s') {j : String}
    {q : Policy} :
    s'.policies.get? j = some q ↔ s.policies.get? j = some q ∧ q.right ≠ p.right := by
  obtain ⟨id, hid, rfl⟩ := remove_eq_ok_iff.1 hs
  obtain ⟨stored, hstored, hright⟩ := h.byRight_iff.1 hid
  rw [Dict.get?_erase_eq_some_iff, ← hright]
  constructor
  · rintro ⟨hne, hq⟩
    exact ⟨hq, fun hr => hne (h.eq_of_right_eq hq hstored hr)⟩
  · rintro ⟨hq, hr⟩
    refine ⟨?_, hq⟩
    rintro rfl
    exact hr (by rw [Option.some.inj (hstored.symm.trans hq)])

/-- A policy that is stored after a call was stored before it, or the call has saved it. -/
theorem get?_policies_after {st : Stores} {c : StoreCall} (h : Valid st.policies)
    (hp : (st.after c).policies.policies.get? id = some p) :
    st.policies.policies.get? id = some p ∨ c = .savePolicy p ∧
      ∃ served, st.serve c = .ok served := by
  rcases st.after_eq_or_serve c with he | ⟨reply, hserve⟩
  · rw [he] at hp
    exact .inl hp
  · generalize st.after c = st' at hserve hp
    cases c with
    | savePolicy q =>
      obtain ⟨policies, hsave, he⟩ := Result.bind_eq_ok_iff.1 hserve
      cases he
      rcases (get?_policies_save hsave).1 hp with ⟨-, rfl⟩ | hp
      · exact .inr ⟨rfl, _, hserve⟩
      · exact .inl hp
    | removePolicy q =>
      obtain ⟨policies, hremove, he⟩ := Result.bind_eq_ok_iff.1 hserve
      cases he
      exact .inl ((h.get?_policies_remove hremove).1 hp).1
    | removePolicies holder =>
      cases hserve
      exact .inl (h.get?_removeHeldBy.1 hp).1
    | policies _ _ =>
      cases hserve
      exact .inl hp
    | _ =>
      obtain ⟨_, _, he⟩ := Result.bind_eq_ok_iff.1 hserve
      cases he
      exact .inl hp

/-- A stored policy has the identifier of a policy, or its right. -/
def Taken (s : PolicyStore) (p : Policy) : Prop :=
  (∃ q, s.policies.get? p.id = some q) ∨ ∃ id q, s.policies.get? id = some q ∧ q.right = p.right

theorem Catalogued.taken_iff (h : Catalogued s) :
    s.Taken p ↔ s.policies.contains p.id = true ∨ s.byRight.contains p.right = true := by
  simp only [Taken, Dict.contains_iff, h.byRight_iff]

theorem Catalogued.save_of_taken (h : Catalogued s) (hp : p.validate = .ok ())
    (htaken : s.Taken p) :
    ∃ what, s.save p = .error (.conflict what) := by
  rw [save, hp]
  rcases h.taken_iff.1 htaken with hid | hright
  · exact ⟨_, if_pos hid⟩
  · by_cases hid : s.policies.contains p.id = true
    · exact ⟨_, if_pos hid⟩
    · exact ⟨_, (if_neg hid).trans (if_pos hright)⟩

theorem Catalogued.save_of_free (h : Catalogued s) (hp : p.validate = .ok ()) (hfree : ¬s.Taken p) :
    ∃ s', s.save p = .ok s' ∧
      ∀ j q, s'.policies.get? j = some q ↔ (j = p.id ∧ q = p) ∨ s.policies.get? j = some q := by
  rw [h.taken_iff, not_or, Bool.not_eq_true, Bool.not_eq_true] at hfree
  have hs := save_eq_ok_iff.2 ⟨hp, hfree.1, hfree.2, rfl⟩
  exact ⟨_, hs, fun _ _ => get?_policies_save hs⟩

theorem Catalogued.save_eq_conflict_iff (h : Catalogued s) (hp : p.validate = .ok ()) :
    (∃ what, s.save p = .error (.conflict what)) ↔ s.Taken p := by
  constructor
  · rintro ⟨what, hwhat⟩
    by_cases htaken : s.Taken p
    · exact htaken
    · obtain ⟨s', hs, -⟩ := h.save_of_free hp htaken
      cases hs.symm.trans hwhat
  · exact h.save_of_taken hp

/-- The identifier of the policy that is given plays no part. -/
theorem Catalogued.remove_of_stored (h : Catalogued s) {q : Policy}
    (hq : s.policies.get? id = some q) (hright : q.right = p.right) : ∃ s', s.remove p = .ok s' ∧
      ∀ j q', s'.policies.get? j = some q' ↔ j ≠ id ∧ s.policies.get? j = some q' :=
  ⟨_, remove_eq_ok_iff.2 ⟨id, h.byRight_iff.2 ⟨q, hq, hright⟩, rfl⟩,
    fun _ _ => Dict.get?_erase_eq_some_iff⟩

theorem Catalogued.remove_of_missing (h : Catalogued s)
    (hmissing : ∀ id q, s.policies.get? id = some q → q.right ≠ p.right) :
    ∃ what, s.remove p = .error (.notFound what) := by
  have hnone : s.byRight.get? p.right = none := by
    refine Option.eq_none_iff_forall_not_mem.2 fun id hid => ?_
    obtain ⟨q, hq, hr⟩ := h.byRight_iff.1 hid
    exact hmissing id q hq hr
  rw [remove, hnone]
  exact ⟨_, rfl⟩

/-- After every run the policies and both indices agree. So no two policies have the same right, a
valid policy conflicts exactly when its identifier or its right is taken, and removing a policy
removes the one with its right. -/
theorem catalogue_agrees_afterAll (calls : List StoreCall) :
    let s := (Stores.empty.afterAll calls).policies
    Valid s ∧
    (∀ i j p q, s.policies.get? i = some p → s.policies.get? j = some q →
      p.right = q.right → i = j) ∧
    (∀ p, p.validate = .ok () →
      ((∃ what, s.save p = .error (.conflict what)) ↔ s.Taken p) ∧
      (¬s.Taken p → ∃ s', s.save p = .ok s' ∧
        ∀ j q, s'.policies.get? j = some q ↔ (j = p.id ∧ q = p) ∨ s.policies.get? j = some q)) ∧
    ∀ p : Policy,
      (∀ id q, s.policies.get? id = some q → q.right = p.right → ∃ s', s.remove p = .ok s' ∧
        ∀ j q', s'.policies.get? j = some q' ↔ j ≠ id ∧ s.policies.get? j = some q') ∧
      ((∀ id q, s.policies.get? id = some q → q.right ≠ p.right) →
        ∃ what, s.remove p = .error (.notFound what)) := by
  intro s
  have hvalid : Valid s := valid_afterAll calls
  refine ⟨hvalid, ?_, ?_, ?_⟩
  · exact fun i j p q hp hq hr => hvalid.eq_of_right_eq hp hq hr
  · exact fun p hp => ⟨hvalid.save_eq_conflict_iff hp, hvalid.save_of_free hp⟩
  · intro p
    exact ⟨fun id q hq hr => hvalid.remove_of_stored hq hr, hvalid.remove_of_missing⟩

end AccessControl.PolicyStore
