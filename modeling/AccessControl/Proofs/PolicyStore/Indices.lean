import AccessControl.Proofs.Indices
import AccessControl.Proofs.Stores.Runs

/-! # The indices of the policy store

Rights and holders lead after every run to exactly the stored policies, and no two stored policies
have the same right. The catalogue of policies by right stands alone while the policies of a holder
are dropped one by one.
-/
namespace AccessControl.PolicyStore

variable {s s' : PolicyStore} {p : Policy} {id : String} {holder : Principal}

theorem save_eq_ok_iff : s.save p = .ok s' ↔
    p.validate = .ok () ∧ s.policies.contains p.id = false ∧ s.byRight.contains p.right = false ∧
    s' = ⟨s.policies.insert p.id p, s.byRight.insert p.right p.id,
      s.byHolder.enter p.holder p.id⟩ := by
  rw [save, Result.check_eq_ok_iff, Result.guard_eq_ok_iff, Result.guard_eq_ok_iff,
    Bool.not_eq_true, Bool.not_eq_true]
  simp only [pure, Except.pure, Except.ok.injEq, eq_comm (b := s')]

theorem remove_eq_ok_iff : s.remove p = .ok s' ↔
    ∃ id, s.byRight.get? p.right = some id ∧
    s' = ⟨s.policies.erase id, s.byRight.erase p.right, s.byHolder.forget p.holder id⟩ := by
  unfold remove
  cases h : s.byRight.get? p.right with
  | none => simp
  | some id => simp [eq_comm (b := s')]

structure Catalogued (s : PolicyStore) : Prop where
  id_of_get : ∀ {id p}, s.policies.get? id = some p → p.id = id
  validate_of_get : ∀ {id p}, s.policies.get? id = some p → p.validate = .ok ()
  byRight_iff : ∀ {r id}, s.byRight.get? r = some id ↔
    ∃ p, s.policies.get? id = some p ∧ p.right = r

structure Valid (s : PolicyStore) : Prop extends Catalogued s where
  heldBy_iff : ∀ {holder id}, id ∈ s.heldBy holder ↔
    ∃ p, s.policies.get? id = some p ∧ p.holder = holder
  filled : s.byHolder.Filled

theorem valid_empty : Valid .empty where
  id_of_get h := by cases h
  validate_of_get h := by cases h
  byRight_iff := ⟨nofun, nofun⟩
  heldBy_iff := ⟨nofun, nofun⟩
  filled := Dict.filled_empty

/-- No two stored policies have the same right. -/
theorem Catalogued.eq_of_right_eq (h : Catalogued s) {i j : String} {p q : Policy}
    (hp : s.policies.get? i = some p) (hq : s.policies.get? j = some q) (hr : p.right = q.right) :
    i = j := by
  have hi := h.byRight_iff.2 ⟨p, hp, rfl⟩
  have hj := h.byRight_iff.2 ⟨q, hq, rfl⟩
  rw [hr, hj] at hi
  exact (Option.some.inj hi).symm

/-- A new policy enters the catalogue and the roll of its holder; its identifier and its right were
free. -/
theorem Valid.save (h : Valid s) (hs : s.save p = .ok s') : Valid s' := by
  obtain ⟨hvalidate, hid, hright, rfl⟩ := save_eq_ok_iff.1 hs
  rw [Dict.contains_eq_false_iff] at hid hright
  have hnew : ∀ {q}, s.policies.get? p.id ≠ some q := by
    intro q hq
    rw [hid] at hq
    cases hq
  refine ⟨⟨?_, ?_, ?_⟩, ?_, h.filled.enter _ _⟩
  · intro id q hq
    rcases Dict.get?_insert_eq_some_iff.1 hq with ⟨rfl, rfl⟩ | ⟨_, hq⟩
    · rfl
    · exact h.id_of_get hq
  · intro id q hq
    rcases Dict.get?_insert_eq_some_iff.1 hq with ⟨_, rfl⟩ | ⟨_, hq⟩
    · exact hvalidate
    · exact h.validate_of_get hq
  · intro r id
    simp only [Dict.get?_insert_eq_some_iff]
    constructor
    · rintro (⟨rfl, rfl⟩ | ⟨_, hold⟩)
      · exact ⟨p, Or.inl ⟨rfl, rfl⟩, rfl⟩
      · obtain ⟨q, hq, hqr⟩ := h.byRight_iff.1 hold
        exact ⟨q, Or.inr ⟨fun he => hnew (he ▸ hq), hq⟩, hqr⟩
    · rintro ⟨q, ⟨rfl, rfl⟩ | ⟨_, hq⟩, rfl⟩
      · exact Or.inl ⟨rfl, rfl⟩
      · have hold := h.byRight_iff.2 ⟨q, hq, rfl⟩
        refine Or.inr ⟨?_, hold⟩
        intro he
        rw [he, hright] at hold
        cases hold
  · intro holder id
    rw [heldBy, Dict.mem_elements_enter]
    simp only [Dict.get?_insert_eq_some_iff]
    constructor
    · rintro (⟨rfl, rfl⟩ | hheld)
      · exact ⟨p, Or.inl ⟨rfl, rfl⟩, rfl⟩
      · obtain ⟨q, hq, hqh⟩ := h.heldBy_iff.1 hheld
        exact ⟨q, Or.inr ⟨fun he => hnew (he ▸ hq), hq⟩, hqh⟩
    · rintro ⟨q, ⟨rfl, rfl⟩ | ⟨_, hq⟩, rfl⟩
      · exact Or.inl ⟨rfl, rfl⟩
      · exact Or.inr (h.heldBy_iff.2 ⟨q, hq, rfl⟩)

/-- Taking a policy out of the catalogue under its identifier and its right. -/
theorem Catalogued.erase (h : Catalogued s) (hp : s.policies.get? id = some p)
    (hpolicies : s'.policies = s.policies.erase id)
    (hbyRight : s'.byRight = s.byRight.erase p.right) :
    Catalogued s' := by
  refine ⟨?_, ?_, ?_⟩
  · intro j q hq
    rw [hpolicies] at hq
    exact h.id_of_get (Dict.get?_erase_eq_some_iff.1 hq).2
  · intro j q hq
    rw [hpolicies] at hq
    exact h.validate_of_get (Dict.get?_erase_eq_some_iff.1 hq).2
  · intro r j
    simp only [hpolicies, hbyRight, Dict.get?_erase_eq_some_iff]
    rw [h.byRight_iff]
    constructor
    · rintro ⟨hne, q, hq, rfl⟩
      refine ⟨q, ⟨?_, hq⟩, rfl⟩
      rintro rfl
      exact hne (by rw [Option.some.inj (hp.symm.trans hq)])
    · rintro ⟨q, ⟨hne, hq⟩, rfl⟩
      exact ⟨fun hr => hne (h.eq_of_right_eq hq hp hr), q, hq, rfl⟩

/-- The stored policy with the right of the given one leaves the catalogue and the roll of their
common holder. -/
theorem Valid.remove (h : Valid s) (hs : s.remove p = .ok s') : Valid s' := by
  obtain ⟨id, hid, rfl⟩ := remove_eq_ok_iff.1 hs
  obtain ⟨stored, hstored, hright⟩ := h.byRight_iff.1 hid
  have hholder : stored.holder = p.holder := congrArg Right.holder hright
  refine ⟨h.toCatalogued.erase hstored rfl (by rw [hright]), ?_, h.filled.forget _ _⟩
  intro holder j
  rw [heldBy, Dict.mem_elements_forget]
  simp only [Dict.get?_erase_eq_some_iff]
  rw [← heldBy, h.heldBy_iff]
  constructor
  · rintro ⟨⟨q, hq, rfl⟩, hnot⟩
    refine ⟨q, ⟨?_, hq⟩, rfl⟩
    rintro rfl
    exact hnot ⟨by rw [Option.some.inj (hstored.symm.trans hq)] at hholder; exact hholder, rfl⟩
  · rintro ⟨q, ⟨hne, hq⟩, rfl⟩
    exact ⟨⟨q, hq, rfl⟩, fun hc => hne hc.2⟩

theorem Catalogued.drop (h : Catalogued s) (id : String) : Catalogued (s.drop id) := by
  unfold PolicyStore.drop
  cases hp : s.policies.get? id with
  | none => exact h
  | some p => exact h.erase hp rfl rfl

theorem get?_policies_drop {q : Policy} {j : String} :
    (s.drop id).policies.get? j = some q ↔ j ≠ id ∧ s.policies.get? j = some q := by
  unfold drop
  cases hp : s.policies.get? id with
  | none =>
    refine ⟨fun hq => ⟨?_, hq⟩, And.right⟩
    rintro rfl
    rw [hp] at hq
    cases hq
  | some p => exact Dict.get?_erase_eq_some_iff

theorem byHolder_drop : (s.drop id).byHolder = s.byHolder := by
  unfold drop
  cases s.policies.get? id <;> rfl

theorem Catalogued.foldl_drop (h : Catalogued s) (ids : List String) :
    Catalogued (ids.foldl PolicyStore.drop s) := by
  induction ids generalizing s with
  | nil => exact h
  | cons id rest ih => exact ih (h.drop id)

theorem get?_policies_foldl_drop {ids : List String} {q : Policy} {j : String} :
    (ids.foldl drop s).policies.get? j = some q ↔ j ∉ ids ∧ s.policies.get? j = some q := by
  induction ids generalizing s with
  | nil => simp
  | cons id rest ih =>
    rw [List.foldl_cons, ih, get?_policies_drop, List.mem_cons, not_or, ← and_assoc,
      and_comm (a := j ∉ rest)]

theorem byHolder_foldl_drop (ids : List String) : (ids.foldl drop s).byHolder = s.byHolder := by
  induction ids generalizing s with
  | nil => rfl
  | cons id rest ih => rw [List.foldl_cons, ih, byHolder_drop]

/-- What is left after the policies of a holder were removed are the policies of the others. -/
theorem Valid.get?_removeHeldBy (h : Valid s) {j : String} {q : Policy} :
    (s.removeHeldBy holder).2.policies.get? j = some q ↔
      s.policies.get? j = some q ∧ q.holder ≠ holder := by
  rw [removeHeldBy]
  simp only [get?_policies_foldl_drop]
  rw [h.heldBy_iff]
  constructor
  · rintro ⟨hnot, hq⟩
    exact ⟨hq, fun hh => hnot ⟨q, hq, hh⟩⟩
  · rintro ⟨hq, hne⟩
    refine ⟨?_, hq⟩
    rintro ⟨q', hq', hh⟩
    exact hne (by rw [← hh, Option.some.inj (hq.symm.trans hq')])

theorem Valid.removeHeldBy (h : Valid s) (holder : Principal) :
    Valid (s.removeHeldBy holder).2 := by
  have hcatalogued : Catalogued { s with byHolder := s.byHolder.erase holder } :=
    ⟨h.id_of_get, h.validate_of_get, h.byRight_iff⟩
  have hbyHolder :
      (s.removeHeldBy holder).2.byHolder = s.byHolder.erase holder := byHolder_foldl_drop _
  refine ⟨hcatalogued.foldl_drop _, ?_, hbyHolder ▸ h.filled.erase holder⟩
  intro other j
  rw [heldBy, hbyHolder, Dict.mem_elements_erase, ← heldBy, h.heldBy_iff]
  simp only [h.get?_removeHeldBy]
  constructor
  · rintro ⟨⟨q, hq, rfl⟩, hne⟩
    exact ⟨q, ⟨hq, hne⟩, rfl⟩
  · rintro ⟨q, ⟨hq, hne⟩, rfl⟩
    exact ⟨⟨q, hq, rfl⟩, hne⟩

/-- The identifiers of the policies that are stored, in order. -/
theorem Catalogued.keys_eq (h : Catalogued s) : s.policies.keys = s.policies.values.map (·.id) := by
  rw [Dict.keys, Dict.values, List.map_map]
  refine List.map_congr_left fun e he => ?_
  exact (h.id_of_get (Dict.get?_eq_some_iff.2 he)).symm

/-- The roll of a holder lists its policies in order of identifier. -/
theorem Valid.heldBy_eq (h : Valid s) (holder : Principal) :
    s.heldBy holder = (s.policies.values.filter fun p => p.holder = holder).map (·.id) := by
  refine Dict.eq_of_sorted_of_mem_iff (Dict.elements_sorted _ _) ?_ fun id => ?_
  · have hkeys := s.policies.keys_sorted
    rw [h.keys_eq, List.pairwise_map] at hkeys
    exact List.pairwise_map.2 (hkeys.filter _)
  · rw [h.heldBy_iff, List.mem_map]
    simp only [List.mem_filter, Dict.mem_values_iff, decide_eq_true_eq]
    constructor
    · rintro ⟨p, hp, hholder⟩
      exact ⟨p, ⟨⟨id, hp⟩, hholder⟩, h.id_of_get hp⟩
    · rintro ⟨p, ⟨⟨i, hp⟩, hholder⟩, rfl⟩
      rw [h.id_of_get hp]
      exact ⟨p, hp, hholder⟩

/-- As many policies are removed as the holder has. -/
theorem Valid.removeHeldBy_fst (h : Valid s) (holder : Principal) :
    (s.removeHeldBy holder).1 = s.policies.values.countP fun p => p.holder = holder := by
  rw [List.countP_eq_length_filter, PolicyStore.removeHeldBy, h.heldBy_eq, List.length_map]

theorem Valid.change (h : Valid s) (hs : s.Change s') : Valid s' := by
  cases hs with
  | save hs => exact h.save hs
  | remove hs => exact h.remove hs
  | removeHeldBy holder => exact h.removeHeldBy holder

theorem valid_afterAll (calls : List StoreCall) : Valid (Stores.empty.afterAll calls).policies :=
  Stores.policies_afterAll valid_empty (fun _ _ h hs => h.change hs) calls

end AccessControl.PolicyStore
