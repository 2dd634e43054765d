import AccessControl.Proofs.GroupStore.Changes
import AccessControl.Proofs.Stores.Runs

/-! # The indices of the group store

Names, children and memberships say after every run what the stored groups and their assignments
say, each from its own side. The names depend on the groups alone, the children also on the order of
attachment, and the rolls of members on nothing but which groups are stored; each change is followed
through the three apart.
-/
namespace AccessControl.GroupStore

variable {s s' : GroupStore} {g old : Group} {id : GroupId} {member : String}

structure Named (s : GroupStore) : Prop where
  id_of_get : ∀ {id g}, s.groups.get? id = some g → g.id = id
  byName_iff : ∀ {name id}, s.byName.get? name = some id ↔
    ∃ g, s.groups.get? id = some g ∧ g.name = name

structure Nested (s : GroupStore) : Prop where
  children_iff : ∀ {p c}, c ∈ s.childrenOf p ↔ ∃ g, s.groups.get? c = some g ∧ g.parent = some p
  children_nodup : ∀ p, (s.childrenOf p).Nodup
  parent_stored : ∀ {id g p}, s.groups.get? id = some g → g.parent = some p →
    s.groups.contains p = true
  listing : Listing s.children

structure Enrolled (s : GroupStore) : Prop where
  members_iff : ∀ {member id}, member ∈ s.membersOf id ↔ id ∈ s.groupsOf member
  stored : ∀ {member id}, member ∈ s.membersOf id → s.groups.contains id = true
  nonempty : ∀ {member id}, member ∈ s.membersOf id → member ≠ ""
  members_filled : s.members.Filled
  memberships_filled : s.memberships.Filled

structure Valid (s : GroupStore) : Prop extends Named s, Nested s, Enrolled s

theorem valid_empty : Valid .empty where
  id_of_get h := by cases h
  byName_iff := ⟨nofun, nofun⟩
  children_iff := ⟨nofun, nofun⟩
  children_nodup p := List.nodup_nil
  parent_stored h := by cases h
  listing := listing_empty
  members_iff := ⟨nofun, nofun⟩
  stored := nofun
  nonempty := nofun
  members_filled := Dict.filled_empty
  memberships_filled := Dict.filled_empty

/-- A new group is filed under its own identifier and its own name, both of which were free. -/
theorem Named.save (h : Named s) (hs : s.save g = .ok s') : Named s' := by
  obtain ⟨_, hid, hname, _, rfl⟩ := save_eq_ok_iff.1 hs
  rw [Dict.contains_eq_false_iff] at hid hname
  constructor
  · intro id k hk
    rcases Dict.get?_insert_eq_some_iff.1 hk with ⟨rfl, rfl⟩ | ⟨_, hk⟩
    · rfl
    · exact h.id_of_get hk
  · intro name id
    simp only [Dict.get?_insert_eq_some_iff]
    constructor
    · rintro (⟨rfl, rfl⟩ | ⟨_, hold⟩)
      · exact ⟨g, Or.inl ⟨rfl, rfl⟩, rfl⟩
      · obtain ⟨k, hk, hkname⟩ := h.byName_iff.1 hold
        refine ⟨k, Or.inr ⟨?_, hk⟩, hkname⟩
        intro he
        rw [he, hid] at hk
        cases hk
    · rintro ⟨k, ⟨rfl, rfl⟩ | ⟨_, hk⟩, rfl⟩
      · exact Or.inl ⟨rfl, rfl⟩
      · have hold := h.byName_iff.2 ⟨k, hk, rfl⟩
        refine Or.inr ⟨?_, hold⟩
        intro he
        rw [he, hname] at hold
        cases hold

/-- An update keeps the name, so the index by name stays right. -/
theorem Named.update {now : Instant} {r : Group × GroupStore} (h : Named s)
    (hs : s.update g now = .ok r) :
    Named r.2 := by
  obtain ⟨_, old, hold, hname, _, _, rfl⟩ := update_eq_ok_iff.1 hs
  constructor
  · intro id k hk
    rcases Dict.get?_insert_eq_some_iff.1 hk with ⟨rfl, rfl⟩ | ⟨_, hk⟩
    · exact (h.id_of_get hold : old.id = g.id)
    · exact h.id_of_get hk
  · intro name id
    simp only [Dict.get?_insert_eq_some_iff]
    rw [h.byName_iff]
    constructor
    · rintro ⟨k, hk, hkname⟩
      by_cases he : id = g.id
      · subst he
        cases hold.symm.trans hk
        exact ⟨_, Or.inl ⟨rfl, rfl⟩, hkname⟩
      · exact ⟨k, Or.inr ⟨he, hk⟩, hkname⟩
    · rintro ⟨k, ⟨rfl, rfl⟩ | ⟨_, hk⟩, hkname⟩
      · exact ⟨old, hold, hkname⟩
      · exact ⟨k, hk, hkname⟩

/-- Two stored groups do not have the same name. -/
theorem Named.eq_of_name_eq (h : Named s) {a b : Group} (ha : s.groups.get? a.id = some a)
    (hb : s.groups.get? b.id = some b) (hname : a.name = b.name) : a = b := by
  have hbya := h.byName_iff.2 ⟨a, ha, rfl⟩
  have hbyb := h.byName_iff.2 ⟨b, hb, rfl⟩
  rw [hname, hbyb] at hbya
  rw [Option.some.inj hbya, ha] at hb
  exact Option.some.inj hb

/-- A deleted group is gone from the records and from the index by name. -/
theorem Named.delete (h : Named s) (hs : s.delete id = .ok s') : Named s' := by
  obtain ⟨g, hg, _, _, rfl⟩ := delete_eq_ok_iff.1 hs
  obtain rfl := h.id_of_get hg
  constructor
  · intro id k hk
    exact h.id_of_get (Dict.get?_erase_eq_some_iff.1 hk).2
  · intro name id
    simp only [Dict.get?_erase_eq_some_iff]
    rw [h.byName_iff]
    constructor
    · rintro ⟨hne, k, hk, rfl⟩
      refine ⟨k, ⟨?_, hk⟩, rfl⟩
      rintro rfl
      exact hne (by rw [Option.some.inj (hg.symm.trans hk)])
    · rintro ⟨k, ⟨hne, hk⟩, rfl⟩
      obtain rfl := h.id_of_get hk
      refine ⟨?_, k, hk, rfl⟩
      intro hname
      exact hne (by rw [h.eq_of_name_eq hk hg hname])

/-- A new group is added to the children of its parent, where it was not before. -/
theorem Nested.save (h : Nested s) (hs : s.save g = .ok s') : Nested s' := by
  obtain ⟨_, hid, _, hparent, rfl⟩ := save_eq_ok_iff.1 hs
  rw [Dict.contains_eq_false_iff] at hid
  have hnew : ∀ p, g.id ∉ s.childrenOf p := by
    intro p hp
    obtain ⟨k, hk, _⟩ := h.children_iff.1 hp
    rw [hid] at hk
    cases hk
  constructor
  · intro p c
    simp only [childrenOf_eq_childrenIn, mem_childrenIn_attach, Dict.get?_insert_eq_some_iff]
    rw [← childrenOf_eq_childrenIn, h.children_iff]
    constructor
    · rintro (⟨k, hk, hkp⟩ | ⟨hgp, rfl⟩)
      · refine ⟨k, Or.inr ⟨?_, hk⟩, hkp⟩
        intro he
        rw [he, hid] at hk
        cases hk
      · exact ⟨g, Or.inl ⟨rfl, rfl⟩, hgp⟩
    · rintro ⟨k, ⟨rfl, rfl⟩ | ⟨_, hk⟩, hkp⟩
      · exact Or.inr ⟨hkp, rfl⟩
      · exact Or.inl ⟨k, hk, hkp⟩
  · intro p
    exact nodup_childrenIn_attach (h.children_nodup p) (hnew p)
  · intro id k p hk hkp
    rcases Dict.get?_insert_eq_some_iff.1 hk with ⟨_, rfl⟩ | ⟨_, hk⟩
    · exact Dict.contains_insert (hparent p hkp)
    · exact Dict.contains_insert (h.parent_stored hk hkp)
  · exact h.listing.attach

/-- A group that is moved is taken from the one list of children that it was in and put last in the
other. -/
theorem Nested.update {now : Instant} {r : Group × GroupStore} (h : Nested s)
    (hs : s.update g now = .ok r) :
    Nested r.2 := by
  obtain ⟨_, old, hold, _, _, hmove, rfl⟩ := update_eq_ok_iff.1 hs
  have hlisted : ∀ p, g.id ∈ s.childrenOf p ↔ old.parent = some p := by
    intro p
    rw [h.children_iff]
    constructor
    · rintro ⟨k, hk, hkp⟩
      rwa [Option.some.inj (hold.symm.trans hk)]
    · intro hp
      exact ⟨old, hold, hp⟩
  constructor
  · intro p c
    rw [childrenOf_eq_childrenIn, mem_childrenIn_reparent hlisted, ← childrenOf_eq_childrenIn,
      h.children_iff]
    simp only [Dict.get?_insert_eq_some_iff]
    constructor
    · rintro (⟨rfl, hp⟩ | ⟨hne, k, hk, hkp⟩)
      · exact ⟨_, Or.inl ⟨rfl, rfl⟩, hp⟩
      · exact ⟨k, Or.inr ⟨hne, hk⟩, hkp⟩
    · rintro ⟨k, ⟨rfl, rfl⟩ | ⟨hne, hk⟩, hkp⟩
      · exact Or.inl ⟨rfl, hkp⟩
      · exact Or.inr ⟨hne, k, hk, hkp⟩
  · intro p
    exact nodup_childrenIn_reparent (h.children_nodup p) hlisted
  · intro c k p hk hkp
    apply Dict.contains_insert
    rcases Dict.get?_insert_eq_some_iff.1 hk with ⟨_, rfl⟩ | ⟨_, hk⟩
    · by_cases he : old.parent = g.parent
      · exact h.parent_stored hold (he.trans hkp)
      · exact parent_stored_of_checkMove (hmove he) hkp
    · exact h.parent_stored hk hkp
  · exact h.listing.reparent

/-- A deleted group is taken from the children of its parent, and has no children itself. -/
theorem Nested.delete (h : Nested s) (hs : s.delete id = .ok s') : Nested s' := by
  obtain ⟨g, hg, hchildren, _, rfl⟩ := delete_eq_ok_iff.1 hs
  constructor
  · intro p c
    simp only [childrenOf_eq_childrenIn, mem_childrenIn_detach, Dict.get?_erase_eq_some_iff]
    rw [← childrenOf_eq_childrenIn, h.children_iff]
    constructor
    · rintro ⟨⟨k, hk, hkp⟩, hnot⟩
      refine ⟨k, ⟨?_, hk⟩, hkp⟩
      rintro rfl
      rw [Option.some.inj (hg.symm.trans hk)] at hnot
      exact hnot ⟨hkp, rfl⟩
    · rintro ⟨k, ⟨hne, hk⟩, hkp⟩
      exact ⟨⟨k, hk, hkp⟩, fun hc => hne hc.2⟩
  · intro p
    exact nodup_childrenIn_detach (h.children_nodup p)
  · intro c k p hk hkp
    have hkold := (Dict.get?_erase_eq_some_iff.1 hk).2
    have hp : p ≠ id := by
      intro he
      have hc := h.children_iff.2 ⟨k, hkold, hkp⟩
      rw [he, hchildren] at hc
      cases hc
    obtain ⟨v, hv⟩ := Dict.contains_iff.1 (h.parent_stored hkold hkp)
    exact Dict.contains_iff.2 ⟨v, Dict.get?_erase_eq_some_iff.2 ⟨hp, hv⟩⟩
  · exact h.listing.detach

/-- The rolls do not depend on more of the groups than which of them are stored. -/
theorem Enrolled.of_members_eq (h : Enrolled s) (hmembers : s'.members = s.members)
    (hmemberships : s'.memberships = s.memberships)
    (hstored : ∀ id, s.membersOf id ≠ [] → s.groups.contains id = true →
      s'.groups.contains id = true) :
    Enrolled s' := by
  have hm : ∀ id, s'.membersOf id = s.membersOf id :=
    fun id => by rw [membersOf, hmembers, membersOf]
  have hg : ∀ u, s'.groupsOf u = s.groupsOf u := fun u => by rw [groupsOf, hmemberships, groupsOf]
  constructor
  · intro u id
    rw [hm, hg]
    exact h.members_iff
  · intro u id hu
    rw [hm] at hu
    exact hstored id (List.ne_nil_of_mem hu) (h.stored hu)
  · intro u id hu
    rw [hm] at hu
    exact h.nonempty hu
  · rw [hmembers]
    exact h.members_filled
  · rw [hmemberships]
    exact h.memberships_filled

theorem Enrolled.save (h : Enrolled s) (hs : s.save g = .ok s') : Enrolled s' := by
  obtain ⟨_, _, _, _, rfl⟩ := save_eq_ok_iff.1 hs
  exact h.of_members_eq rfl rfl fun id _ hid => Dict.contains_insert hid

theorem Enrolled.update {now : Instant} {r : Group × GroupStore} (h : Enrolled s)
    (hs : s.update g now = .ok r) : Enrolled r.2 := by
  obtain ⟨_, old, _, _, _, _, rfl⟩ := update_eq_ok_iff.1 hs
  exact h.of_members_eq rfl rfl fun id _ hid => Dict.contains_insert hid

theorem Enrolled.delete (h : Enrolled s) (hs : s.delete id = .ok s') : Enrolled s' := by
  obtain ⟨g, _, _, hnone, rfl⟩ := delete_eq_ok_iff.1 hs
  refine h.of_members_eq rfl rfl fun j hj hstored => ?_
  obtain ⟨k, hk⟩ := Dict.contains_iff.1 hstored
  refine Dict.contains_iff.2 ⟨k, Dict.get?_erase_eq_some_iff.2 ⟨?_, hk⟩⟩
  rintro rfl
  exact hj hnone

/-- Both rolls take up the same pair. -/
theorem Enrolled.assign (h : Enrolled s) (hs : s.assign member id = .ok s') : Enrolled s' := by
  obtain ⟨hmember, hid, rfl⟩ := assign_eq_ok_iff.1 hs
  have hcases : ∀ {u j}, u ∈ (s.members.enter id member).elements j → (j = id ∧ u = member) ∨
      u ∈ s.membersOf j :=
    Dict.mem_elements_enter.1
  constructor
  · intro u j
    rw [membersOf, groupsOf, Dict.mem_elements_enter, Dict.mem_elements_enter, and_comm]
    exact or_congr_right h.members_iff
  · intro u j hu
    rcases hcases hu with ⟨rfl, _⟩ | hu
    · exact hid
    · exact h.stored hu
  · intro u j hu
    rcases hcases hu with ⟨_, rfl⟩ | hu
    · exact hmember
    · exact h.nonempty hu
  · exact h.members_filled.enter id member
  · exact h.memberships_filled.enter member id

theorem Enrolled.unassign (h : Enrolled s) (hs : s.unassign member id = .ok s') : Enrolled s' := by
  obtain ⟨_, rfl⟩ := unassign_eq_ok_iff.1 hs
  have hsub : ∀ {u j}, u ∈ (s.members.forget id member).elements j → u ∈ s.membersOf j :=
    fun hu => (Dict.mem_elements_forget.1 hu).1
  constructor
  · intro u j
    rw [membersOf, groupsOf, Dict.mem_elements_forget, Dict.mem_elements_forget,
      and_comm (a := j = id)]
    exact and_congr_left fun _ => h.members_iff
  · intro u j hu
    exact h.stored (hsub hu)
  · intro u j hu
    exact h.nonempty (hsub hu)
  · exact h.members_filled.forget id member
  · exact h.memberships_filled.forget member id

/-- Enrolling and striking off touch neither the names nor the children. -/
theorem Valid.change (h : Valid s) (hs : s.Change s') : Valid s' := by
  cases hs with
  | save hs => exact ⟨h.toNamed.save hs, h.toNested.save hs, h.toEnrolled.save hs⟩
  | update hs => exact ⟨h.toNamed.update hs, h.toNested.update hs, h.toEnrolled.update hs⟩
  | delete hs => exact ⟨h.toNamed.delete hs, h.toNested.delete hs, h.toEnrolled.delete hs⟩
  | assign hs =>
    have henrolled := h.toEnrolled.assign hs
    obtain ⟨_, _, rfl⟩ := assign_eq_ok_iff.1 hs
    exact ⟨⟨h.id_of_get, h.byName_iff⟩,
      ⟨h.children_iff, h.children_nodup, h.parent_stored, h.listing⟩, henrolled⟩
  | unassign hs =>
    have henrolled := h.toEnrolled.unassign hs
    obtain ⟨_, rfl⟩ := unassign_eq_ok_iff.1 hs
    exact ⟨⟨h.id_of_get, h.byName_iff⟩,
      ⟨h.children_iff, h.children_nodup, h.parent_stored, h.listing⟩, henrolled⟩

theorem Valid.getByName_eq (h : Valid s) (hg : s.get id = .ok g) : s.getByName g.name = .ok g := by
  rw [get_eq_ok_iff] at hg
  simp only [getByName, h.byName_iff.2 ⟨g, hg, rfl⟩]
  exact get_eq_ok_iff.2 hg

/-- After every run the indices agree with the groups and with each other, so names are unique and a
name leads to its group. -/
theorem indices_agree_afterAll (calls : List StoreCall) :
    Valid (Stores.empty.afterAll calls).groups ∧
    (∀ i j a b, (Stores.empty.afterAll calls).groups.get i = .ok a →
      (Stores.empty.afterAll calls).groups.get j = .ok b → a.name = b.name → i = j) ∧
    ∀ id g, (Stores.empty.afterAll calls).groups.get id = .ok g →
      (Stores.empty.afterAll calls).groups.getByName g.name = .ok g := by
  have hvalid : Valid (Stores.empty.afterAll calls).groups :=
    Stores.groups_afterAll valid_empty (fun _ _ h hs => h.change hs) calls
  refine ⟨hvalid, ?_, fun id g hg => hvalid.getByName_eq hg⟩
  intro i j a b ha hb hname
  rw [get_eq_ok_iff] at ha hb
  have hi := hvalid.byName_iff.2 ⟨a, ha, rfl⟩
  have hj := hvalid.byName_iff.2 ⟨b, hb, rfl⟩
  rw [hname, hj] at hi
  exact (Option.some.inj hi).symm

end AccessControl.GroupStore
