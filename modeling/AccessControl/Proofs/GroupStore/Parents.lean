import AccessControl.Proofs.GroupStore.Descent

/-! # What a change leaves of parents and members

A change of one group leaves the parents of all others and every roll of members. A group is saved
without children and members, and it is deleted only when it has none, so both times nothing is
below it.
-/
namespace AccessControl.GroupStore

variable {s s' : GroupStore} {g : Group} {id c p : GroupId} {member : String} {now : Instant}
  {r : Group × GroupStore}

theorem parentOf_insert (hgroups : s'.groups = s.groups.insert id g) (hp : p ≠ id) :
    s'.parentOf p = s.parentOf p := by
  rw [parentOf, hgroups, Dict.get?_insert_ne s.groups hp, parentOf]

theorem parentOf_save (hs : s.save g = .ok s') (hp : p ≠ g.id) : s'.parentOf p = s.parentOf p := by
  obtain ⟨_, _, _, _, rfl⟩ := save_eq_ok_iff.1 hs
  exact parentOf_insert rfl hp

theorem parentOf_update (hs : s.update g now = .ok r) (hp : p ≠ g.id) :
    r.2.parentOf p = s.parentOf p := by
  obtain ⟨_, _, _, _, _, _, rfl⟩ := update_eq_ok_iff.1 hs
  exact parentOf_insert rfl hp

theorem parentOf_update_self (hs : s.update g now = .ok r) : r.2.parentOf g.id = g.parent := by
  obtain ⟨_, old, _, _, _, _, rfl⟩ := update_eq_ok_iff.1 hs
  exact parentOf_eq (g := updated old g now) (Dict.get?_insert_self s.groups g.id _)

theorem parentOf_delete (hs : s.delete id = .ok s') (hp : p ≠ id) :
    s'.parentOf p = s.parentOf p := by
  obtain ⟨g, _, _, _, rfl⟩ := delete_eq_ok_iff.1 hs
  rw [parentOf, Dict.get?_erase_ne s.groups hp, parentOf]

theorem membersOf_save (hs : s.save g = .ok s') (id : GroupId) :
    s'.membersOf id = s.membersOf id := by
  obtain ⟨_, _, _, _, rfl⟩ := save_eq_ok_iff.1 hs
  rfl

theorem membersOf_update (hs : s.update g now = .ok r) (id : GroupId) :
    r.2.membersOf id = s.membersOf id := by
  obtain ⟨_, _, _, _, _, _, rfl⟩ := update_eq_ok_iff.1 hs
  rfl

theorem membersOf_delete (hs : s.delete id = .ok s') (j : GroupId) :
    s'.membersOf j = s.membersOf j := by
  obtain ⟨_, _, _, _, rfl⟩ := delete_eq_ok_iff.1 hs
  rfl

theorem parentOf_assign (hs : s.assign member id = .ok s') (p : GroupId) :
    s'.parentOf p = s.parentOf p := by
  obtain ⟨_, _, rfl⟩ := assign_eq_ok_iff.1 hs
  rfl

theorem parentOf_unassign (hs : s.unassign member id = .ok s') (p : GroupId) :
    s'.parentOf p = s.parentOf p := by
  obtain ⟨_, rfl⟩ := unassign_eq_ok_iff.1 hs
  rfl

theorem mem_membersOf_assign {u : String} {j : GroupId} (hs : s.assign member id = .ok s') :
    u ∈ s'.membersOf j ↔ j = id ∧ u = member ∨ u ∈ s.membersOf j := by
  obtain ⟨_, _, rfl⟩ := assign_eq_ok_iff.1 hs
  exact Dict.mem_elements_enter

theorem mem_membersOf_unassign {u : String} {j : GroupId} (hs : s.unassign member id = .ok s') :
    u ∈ s'.membersOf j ↔ u ∈ s.membersOf j ∧ ¬(j = id ∧ u = member) := by
  obtain ⟨_, rfl⟩ := unassign_eq_ok_iff.1 hs
  exact Dict.mem_elements_forget

structure Bare (s : GroupStore) (id : GroupId) : Prop where
  childless : ∀ c, s.parentOf c ≠ some id
  memberless : ∀ member, member ∉ s.membersOf id

theorem Bare.not_isAbove (h : s.Bare id) (c : GroupId) : ¬s.IsAbove id c := by
  intro habove
  obtain ⟨d, _, hd⟩ := Relation.TransGen.tail'_iff.1 habove
  exact h.childless d hd

theorem Valid.bare_of_missing (h : Valid s) (hid : s.groups.contains id = false) : s.Bare id where
  childless c hc := by
    obtain ⟨k, hk, hparent⟩ := Option.bind_eq_some_iff.1 hc
    have hstored := h.parent_stored hk hparent
    rw [hid] at hstored
    cases hstored
  memberless member hm := by
    have hstored := h.stored hm
    rw [hid] at hstored
    cases hstored

theorem Nested.bare_of_delete (h : Nested s) (hs : s.delete id = .ok s') : s.Bare id := by
  obtain ⟨_, _, hchildren, hmembers, _⟩ := delete_eq_ok_iff.1 hs
  constructor
  · intro c hc
    rw [← mem_childrenOf_iff h, hchildren] at hc
    cases hc
  · intro member hm
    rw [hmembers] at hm
    cases hm

end AccessControl.GroupStore
