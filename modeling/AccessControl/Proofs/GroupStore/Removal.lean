import AccessControl.Proofs.GroupStore.Rolls
import AccessControl.Proofs.GroupStore.Siblings

/-! # Removal

A group is removed when it has neither children nor members, and the refusal of any other counts
them. What goes with it is what came with it when it was saved: its record, its name and its place
among the children of its parent. Nothing else is listed under it or because of it, so nothing else
changes.
-/
namespace AccessControl.GroupStore

variable {s s' : GroupStore} {g k : Group} {id c p : GroupId} {name : String} {gs : List Group}

section Lists

variable {children children' : Dict GroupId (List GroupId)} {parent : Option GroupId}
  {child : GroupId}

/-- An empty list is not kept, so a list that is kept is told from none. -/
theorem Listing.get?_eq_some_iff (h : Listing children) {cs : List GroupId} :
    children.get? p = some cs ↔ childrenIn children p = cs ∧ cs ≠ [] := by
  have hkept := h p
  cases hp : children.get? p with
  | none => simp [childrenIn, hp, eq_comm]
  | some siblings =>
    rw [hp] at hkept
    have hne : siblings ≠ [] := fun he => hkept (congrArg some he)
    simp only [childrenIn, hp, Option.some.injEq, Option.getD_some]
    exact ⟨fun he => ⟨he, he ▸ hne⟩, And.left⟩

theorem Listing.ext (h : Listing children) (h' : Listing children')
    (hsame : ∀ p, childrenIn children' p = childrenIn children p) : children' = children := by
  apply Dict.ext_get?
  intro p
  apply Option.ext
  intro cs
  rw [h.get?_eq_some_iff, h'.get?_eq_some_iff, hsame]

/-- To take a group out of a list where it was put last leaves the list as it was. -/
theorem Listing.detach_attach (h : Listing children) (hnew : ∀ p, child ∉ childrenIn children p) :
    GroupStore.detach (GroupStore.attach children parent child) parent child = children := by
  refine h.ext h.attach.detach fun p => ?_
  by_cases hp : parent = some p
  · rw [hp, childrenIn_detach_self, childrenIn_attach_self, List.filter_append,
      filter_ne_of_not_mem (hnew p)]
    simp
  · rw [childrenIn_detach_ne hp, childrenIn_attach_ne hp]

end Lists

/-- A group that was just saved has no children and no members, and it goes as it came. -/
theorem Valid.delete_of_save (h : Valid s) (hs : s.save g = .ok s') : s'.delete g.id = .ok s := by
  have hbare : s.Bare g.id := h.bare_of_missing (save_eq_ok_iff.1 hs).2.1
  have hchildren : s'.childrenOf g.id = [] := by
    obtain ⟨hg, -⟩ := save_eq_ok_iff.1 hs
    rw [childrenOf_save hs, if_neg (Group.validate_eq_ok_iff.1 hg).2.2, List.append_nil]
    exact List.eq_nil_iff_forall_not_mem.2 fun c hc =>
      hbare.childless c ((mem_childrenOf_iff h.toNested).1 hc)
  have hmembers : s'.membersOf g.id = [] := by
    rw [membersOf_save hs]
    exact List.eq_nil_iff_forall_not_mem.2 hbare.memberless
  obtain ⟨-, hid, hname, -, rfl⟩ := save_eq_ok_iff.1 hs
  rw [Dict.contains_eq_false_iff] at hid hname
  have hnew : ∀ p, g.id ∉ childrenIn s.children p := by
    intro p hp
    obtain ⟨k, hk, -⟩ := h.children_iff.1 (childrenOf_eq_childrenIn s p ▸ hp)
    rw [hid] at hk
    cases hk
  refine delete_eq_ok_iff.2 ⟨g, Dict.get?_insert_self .., hchildren, hmembers, ?_⟩
  rw [Dict.erase_insert hid, Dict.erase_insert hname, h.listing.detach_attach hnew]

theorem delete_of_dependents (hg : s.groups.get? id = some g)
    (h : s.childrenOf id ≠ [] ∨ s.membersOf id ≠ []) :
    s.delete id = .error (.hasDependents id (s.childrenOf id).length (s.membersOf id).length) := by
  have hcount : 0 < (s.childrenOf id).length ∨ 0 < (s.membersOf id).length := by
    simpa only [List.length_pos_iff] using h
  rw [delete, get_eq_ok_iff.2 hg]
  exact if_pos hcount

theorem exists_delete_iff : (∃ s', s.delete id = .ok s') ↔
    (∃ g, s.get id = .ok g) ∧ s.childrenOf id = [] ∧ s.membersOf id = [] := by
  simp only [delete_eq_ok_iff, get_eq_ok_iff]
  constructor
  · rintro ⟨s', g, hg, hchildren, hmembers, -⟩
    exact ⟨⟨g, hg⟩, hchildren, hmembers⟩
  · rintro ⟨⟨g, hg⟩, hchildren, hmembers⟩
    exact ⟨_, g, hg, hchildren, hmembers, rfl⟩

theorem Nested.childrenOf_eq_nil_iff (h : Nested s) :
    s.childrenOf id = [] ↔ ∀ c k, s.get c = .ok k → k.parent ≠ some id := by
  simp only [List.eq_nil_iff_forall_not_mem, h.children_iff, get_eq_ok_iff, not_exists, not_and]

/-- A query answers with a list in which there is a group with this identifier. -/
def Reports (s : GroupStore) (id : GroupId) : Prop :=
  ∃ gs, id ∈ Stores.ids gs ∧
    ((∃ i, s.retrieveChildren i = .ok gs ∨ s.retrieveAncestors i = .ok gs ∨
      s.retrieveDescendants i = .ok gs) ∨
      ∃ member, s.retrieveMemberships member = .ok gs)

/-- Whatever a resolved list names is stored. -/
theorem stored_of_resolve {ids : List GroupId} (h : s.resolve ids = .ok gs) (hg : g ∈ gs) :
    ∃ i, s.groups.get? i = some g := by
  induction ids generalizing gs with
  | nil =>
    cases h
    cases hg
  | cons i rest ih =>
    rw [resolve] at h
    cases hi : s.groups.get? i with
    | none =>
      rw [hi] at h
      cases h
    | some first =>
      rw [hi] at h
      obtain ⟨others, hothers, he⟩ := Result.bind_eq_ok_iff.1 h
      cases he
      rcases List.mem_cons.1 hg with rfl | hg
      · exact ⟨i, hi⟩
      · exact ih hothers hg

/-- Every query looks up what its list names, so nothing is listed that is not stored. -/
theorem Named.stored_of_reports (h : Named s) (hid : s.Reports id) :
    s.groups.contains id = true := by
  obtain ⟨gs, hmem, hquery⟩ := hid
  obtain ⟨g, hg, rfl⟩ := List.mem_map.1 hmem
  have hresolve : ∃ ids, s.resolve ids = .ok gs := by
    rcases hquery with ⟨i, hchildren | hancestors | hdescendants⟩ | ⟨member, hmemberships⟩
    · obtain ⟨-, -, hids⟩ := Result.bind_eq_ok_iff.1 hchildren
      exact ⟨_, hids⟩
    · obtain ⟨ids, -, hids⟩ := Result.bind_eq_ok_iff.1 hancestors
      exact ⟨ids, hids⟩
    · obtain ⟨ids, -, hids⟩ := Result.bind_eq_ok_iff.1 hdescendants
      exact ⟨ids, hids⟩
    · exact ⟨_, hmemberships⟩
  obtain ⟨ids, hids⟩ := hresolve
  obtain ⟨i, hi⟩ := stored_of_resolve hids hg
  obtain rfl := h.id_of_get hi
  exact Dict.contains_iff.2 ⟨g, hi⟩

theorem flatMap_filter_eq {α β : Type} {f : α → List β} {keep : α → Bool} {l : List α}
    (h : ∀ x, ¬keep x = true → f x = []) : (l.filter keep).flatMap f = l.flatMap f := by
  induction l with
  | nil => rfl
  | cons x rest ih =>
    rw [List.filter_cons, List.flatMap_cons]
    split
    · rw [List.flatMap_cons, ih]
    · rename_i hx
      rw [ih, h x hx, List.nil_append]

section Deletion

variable (hs : s.delete id = .ok s')
include hs

theorem get?_delete_self : s'.groups.get? id = none := by
  obtain ⟨_, -, -, -, rfl⟩ := delete_eq_ok_iff.1 hs
  exact Dict.get?_erase_self s.groups id

theorem contains_delete (hc : c ≠ id) : s'.groups.contains c = s.groups.contains c := by
  rw [Dict.contains, get?_delete_ne hs hc, Dict.contains]

theorem get_delete (hc : c ≠ id) : s'.get c = s.get c := by simp only [get, get?_delete_ne hs hc]

/-- Other names lead to other groups, which are still there. -/
theorem Named.getByName_delete (h : Named s) (hg : s.groups.get? id = some g)
    (hname : name ≠ g.name) :
    s'.getByName name = s.getByName name := by
  have hgroups : ∀ {c}, c ≠ id → s'.get c = s.get c := fun hc => get_delete hs hc
  obtain ⟨g', hg', -, -, rfl⟩ := delete_eq_ok_iff.1 hs
  cases hg.symm.trans hg'
  rw [getByName, getByName, Dict.get?_erase_ne s.byName hname]
  cases hfound : s.byName.get? name with
  | none => rfl
  | some c =>
    obtain ⟨k, hk, rfl⟩ := h.byName_iff.1 hfound
    refine hgroups fun hc => hname ?_
    rw [hc, hg] at hk
    rw [Option.some.inj hk]

theorem getByName_delete_self (hg : s.groups.get? id = some g) :
    s'.getByName g.name = .error (.notFound s!"group named '{g.name}'") := by
  obtain ⟨g', hg', -, -, rfl⟩ := delete_eq_ok_iff.1 hs
  cases hg.symm.trans hg'
  simp only [getByName, Dict.get?_erase_self]

theorem records_delete {ids : List GroupId} (hid : id ∉ ids) : s'.records ids = s.records ids :=
  List.filterMap_congr fun _ hc => get?_delete_ne hs fun he => hid (he ▸ hc)

/-- Looking up a list without the group is leaving the group out of what was looked up before. -/
theorem Named.records_delete_filter (h : Named s) (ids : List GroupId) :
    s'.records (ids.filter (· != id)) = (s.records ids).filter (·.id != id) := by
  rw [records_delete hs (by simp), records, records, List.filterMap_filter, List.filter_filterMap]
  refine List.filterMap_congr fun c _ => ?_
  cases hc : s.groups.get? c with
  | none => simp
  | some k => simp [h.id_of_get hc, Option.filter]

theorem Sound.retrieveChildren_delete (h : Sound s) (hp : p ≠ id) :
    s'.retrieveChildren p = (fun gs => gs.filter (·.id != id)) <$> s.retrieveChildren p := by
  have hsame : s'.groups.contains p = s.groups.contains p := contains_delete hs hp
  cases hstored : s.groups.contains p with
  | false =>
    rw [retrieveChildren_of_missing hstored, retrieveChildren_of_missing (hsame.trans hstored)]
    rfl
  | true =>
    have h' : Sound s' := h.change (.delete hs)
    rw [h.retrieveChildren_eq_records hstored, h'.retrieveChildren_eq_records (hsame.trans hstored),
      h.childrenOf_delete hs, h.records_delete_filter hs]
    rfl

theorem Sound.agreeBut_delete (h : Sound s) : AgreeBut s s' id :=
  ⟨h.forest, (h.change (.delete hs)).forest, fun _ hc => parentOf_delete hs hc⟩

/-- No line of ancestors passes a group without children. -/
theorem Sound.retrieveAncestors_delete (h : Sound s) (hc : c ≠ id) :
    s'.retrieveAncestors c = s.retrieveAncestors c := by
  have hnot : id ∉ s.above c :=
    fun hmem => (h.bare_of_delete hs).not_isAbove c (h.forest.mem_above_iff.1 hmem)
  have habove : s'.above c = s.above c := (h.agreeBut_delete hs).above_of_not_mem hc hnot
  exact h.retrieveAncestors_congr (h.change (.delete hs)) (contains_delete hs hc) habove
    (records_delete hs hnot)

omit hs in
theorem retrieveDescendants_of_missing (hp : s.groups.contains p = false) :
    s.retrieveDescendants p = .error (.notFound s!"group {p}") := by
  rw [retrieveDescendants, descendants, get_of_missing hp]
  rfl

/-- A group without children ends its row, so the rows that it was in are the same but for it. -/
theorem Sound.retrieveDescendants_delete (h : Sound s) (hp : p ≠ id) :
    s'.retrieveDescendants p = (fun gs => gs.filter (·.id != id)) <$> s.retrieveDescendants p := by
  have hsame : s'.groups.contains p = s.groups.contains p := contains_delete hs hp
  cases hstored : s.groups.contains p with
  | false =>
    rw [retrieveDescendants_of_missing hstored,
      retrieveDescendants_of_missing (hsame.trans hstored)]
    rfl
  | true =>
    have h' : Sound s' := h.change (.delete hs)
    obtain ⟨found, hfound, d⟩ := h.retrieveDescendants_eq_records hstored
    obtain ⟨found', hfound', d'⟩ := h'.retrieveDescendants_eq_records (hsame.trans hstored)
    have hlast : s'.childrenOf id = [] := by
      obtain ⟨_, -, hchildren, -⟩ := delete_eq_ok_iff.1 hs
      rw [h.childrenOf_delete hs, hchildren]
      rfl
    have hrow : found.filter (· != id) = ([p] ++ found.filter (· != id)).flatMap s'.childrenOf :=
      calc found.filter (· != id)
        _ = ((p :: found).flatMap s.childrenOf).filter (· != id) := by rw [← d.children]
        _ = (p :: found).flatMap s'.childrenOf := by
          rw [List.filter_flatMap]
          exact List.flatMap_congr fun c _ => (h.childrenOf_delete hs c).symm
        _ = ((p :: found).filter (· != id)).flatMap s'.childrenOf := by
          refine (flatMap_filter_eq fun c hc => ?_).symm
          have hcid : c = id := by simpa using hc
          rw [hcid, hlast]
        _ = ([p] ++ found.filter (· != id)).flatMap s'.childrenOf := by
          rw [List.filter_cons, if_pos (bne_iff_ne.2 hp)]
          rfl
    have hleft : found' = found.filter (· != id) :=
      row_unique h'.length_above_of_child d'.children hrow
    rw [hfound, hfound', hleft, h.records_delete_filter hs]
    rfl

theorem retrieveMembers_delete (hp : p ≠ id) : s'.retrieveMembers p = s.retrieveMembers p := by
  rw [retrieveMembers_eq, retrieveMembers_eq, contains_delete hs hp, membersOf_delete hs]

/-- Nobody was assigned to the group, so it was on nobody's list. -/
theorem Sound.retrieveMemberships_delete (h : Sound s) (member : String) :
    s'.retrieveMemberships member = s.retrieveMemberships member := by
  have h' : Sound s' := h.change (.delete hs)
  have hnot : id ∉ s.groupsOf member := by
    rw [← h.members_iff]
    exact (h.bare_of_delete hs).memberless member
  have hsame : s'.groupsOf member = s.groupsOf member := by
    obtain ⟨_, -, -, -, rfl⟩ := delete_eq_ok_iff.1 hs
    rfl
  rw [h.retrieveMemberships_eq_records, h'.retrieveMemberships_eq_records, hsame,
    records_delete hs hnot]

end Deletion

/-- All that the removal of a group does: its identifier and its name can be taken again, no query
lists it, and what is said about the other groups, their order and their members is what was said
before. -/
structure Removes (s : GroupStore) (g : Group) (s' : GroupStore) : Prop where
  id_free : s'.get g.id = .error (.notFound s!"group {g.id}")
  name_free : s'.getByName g.name = .error (.notFound s!"group named '{g.name}'")
  reusable : ∀ k : Group, k.validate = .ok () → (k.id = g.id ∨ ∀ x, s.get k.id ≠ .ok x) →
    (k.name = g.name ∨ ∀ x, s.getByName k.name ≠ .ok x) →
      (∀ p, k.parent = some p → ∃ x, s'.get p = .ok x) →
    ∃ s'', s'.save k = .ok s''
  unreported : ¬s'.Reports g.id
  groups : ∀ c, c ≠ g.id → s'.get c = s.get c
  names : ∀ name, name ≠ g.name → s'.getByName name = s.getByName name
  children : ∀ p, p ≠ g.id →
    s'.retrieveChildren p = (fun gs => gs.filter (·.id != g.id)) <$> s.retrieveChildren p
  ancestors : ∀ c, c ≠ g.id → s'.retrieveAncestors c = s.retrieveAncestors c
  descendants : ∀ p, p ≠ g.id →
    s'.retrieveDescendants p = (fun gs => gs.filter (·.id != g.id)) <$> s.retrieveDescendants p
  members : ∀ p, p ≠ g.id → s'.retrieveMembers p = s.retrieveMembers p
  memberships : ∀ member, s'.retrieveMemberships member = s.retrieveMemberships member

theorem Named.exists_save (h : Named s) (hk : k.validate = .ok ()) (hid : ∀ x, s.get k.id ≠ .ok x)
    (hname : ∀ x, s.getByName k.name ≠ .ok x)
    (hparent : ∀ p, k.parent = some p → ∃ x, s.get p = .ok x) :
    ∃ s', s.save k = .ok s' := by
  refine ⟨_, save_eq_ok_iff.2 ⟨hk, ?_, ?_, fun p hp => ?_, rfl⟩⟩
  · refine Dict.contains_eq_false_iff.2 (Option.eq_none_iff_forall_ne_some.2 fun x hx => ?_)
    exact hid x (get_eq_ok_iff.2 hx)
  · refine Dict.contains_eq_false_iff.2 (Option.eq_none_iff_forall_ne_some.2 fun c hc => ?_)
    obtain ⟨x, hx, -⟩ := h.byName_iff.1 hc
    refine hname x ?_
    simp only [getByName, hc, get_eq_ok_iff.2 hx]
  · obtain ⟨x, hx⟩ := hparent p hp
    exact Dict.contains_iff.2 ⟨x, get_eq_ok_iff.1 hx⟩

/-- A deletion that succeeds does all that a removal is to do. -/
theorem Sound.removes_delete (h : Sound s) (hg : s.groups.get? g.id = some g)
    (hs : s.delete g.id = .ok s') :
    Removes s g s' := by
  have h' : Sound s' := h.change (.delete hs)
  have hgone : s'.groups.contains g.id = false := Dict.contains_eq_false_iff.2 (get?_delete_self hs)
  have hfree : s'.get g.id = .error (.notFound s!"group {g.id}") := get_of_missing hgone
  have hname := getByName_delete_self hs hg
  refine ⟨hfree, hname, ?_, ?_, fun _ hc => get_delete hs hc,
    fun _ hne => h.getByName_delete hs hg hne, fun _ hp => h.retrieveChildren_delete hs hp,
    fun _ hc => h.retrieveAncestors_delete hs hc, fun _ hp => h.retrieveDescendants_delete hs hp,
    fun _ hp => retrieveMembers_delete hs hp,
    h.retrieveMemberships_delete hs⟩
  · intro k hk hid hkname hparent
    refine h'.exists_save hk (fun x hx => ?_) (fun x hx => ?_) hparent
    · by_cases he : k.id = g.id
      · rw [he, hfree] at hx
        cases hx
      · rw [get_delete hs he] at hx
        exact hid.resolve_left he x hx
    · by_cases he : k.name = g.name
      · rw [he, hname] at hx
        cases hx
      · rw [h.getByName_delete hs hg he] at hx
        exact hkname.resolve_left he x hx
  · intro hlisted
    rw [h'.stored_of_reports hlisted] at hgone
    cases hgone

/-- After every run a group is removed exactly when it is stored, no stored group has it as parent
and nobody is assigned to it, by the last word on the two. Otherwise nothing is removed: there is no
such group, or the refusal counts its children and its members. Nothing but the group goes with it,
and to remove a group that was just saved gives back the store from before. -/
theorem deletion_undoes_creation (calls : List StoreCall) :
    let s := (Stores.empty.afterAll calls).groups
    (∀ id,
      ((∃ s', s.delete id = .ok s') ↔ (∃ g, s.get id = .ok g) ∧
        (∀ c k, s.get c = .ok k → k.parent ≠ some id) ∧
        ∀ member, ¬LastAssigned member id calls) ∧
      ((∀ g, s.get id ≠ .ok g) → s.delete id = .error (.notFound s!"group {id}")) ∧
      (∀ g, s.get id = .ok g → (∀ s', s.delete id ≠ .ok s') → ∃ children members,
        s.retrieveChildren id = .ok children ∧ s.retrieveMembers id = .ok members ∧
        s.delete id = .error (.hasDependents id children.length members.length)) ∧
      ∀ s', s.delete id = .ok s' → ∃ g, s.get id = .ok g ∧ g.id = id ∧ Removes s g s') ∧
    ∀ g s', s.save g = .ok s' → s'.delete g.id = .ok s := by
  intro s
  have h : Sound s := sound_afterAll calls
  have hmemberless : ∀ id, s.membersOf id = [] ↔ ∀ member, ¬LastAssigned member id calls := by
    intro id
    rw [List.eq_nil_iff_forall_not_mem]
    exact forall_congr' fun member => not_congr (Stores.mem_afterAll_iff member id calls)
  refine ⟨fun id => ⟨?_, fun hnone => ?_, fun g hg hrefused => ?_, fun s' hs => ?_⟩, fun g s' hs =>
    h.delete_of_save hs⟩
  · rw [exists_delete_iff, h.childrenOf_eq_nil_iff, hmemberless]
  · refine delete_of_missing (Option.eq_none_iff_forall_ne_some.2 fun g hg => ?_)
    exact hnone g (get_eq_ok_iff.2 hg)
  · have hid : s.groups.contains id = true := Dict.contains_iff.2 ⟨g, get_eq_ok_iff.1 hg⟩
    have hdependents : s.childrenOf id ≠ [] ∨ s.membersOf id ≠ [] := by
      by_contra hbare
      rw [not_or, not_not, not_not] at hbare
      obtain ⟨s', hs⟩ := exists_delete_iff.2 ⟨⟨g, hg⟩, hbare⟩
      exact hrefused s' hs
    obtain ⟨cs, hcs, hids⟩ := h.retrieveChildren_eq hid
    refine ⟨cs, _, hcs, retrieveMembers_eq_ok_iff.2 ⟨hid, rfl⟩, ?_⟩
    rw [delete_of_dependents (get_eq_ok_iff.1 hg) hdependents, ← hids, List.length_map]
  · obtain ⟨g, hg, -⟩ := delete_eq_ok_iff.1 hs
    obtain rfl := h.id_of_get hg
    exact ⟨g, get_eq_ok_iff.2 hg, rfl, h.removes_delete hg hs⟩

end AccessControl.GroupStore
