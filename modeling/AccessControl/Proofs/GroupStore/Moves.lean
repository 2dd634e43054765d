import AccessControl.Proofs.GroupStore.Levels
import AccessControl.Proofs.GroupStore.Parents

/-! # Moves

A group may go under every stored group that is neither the group itself nor below it. Its move
changes one pointer to a parent, so the lines of ancestors that pass the group are cut off there and
go on with the new parent, and no others change.
-/
namespace AccessControl

/-- A group that is its own parent is refused before anything is looked up. -/
theorem Group.validate_of_own_parent {g : Group} (hid : g.id ≠ "")
    (hname : Text.isBlank g.name = false) (hown : g.parent = some g.id) :
    g.validate = .error (.malformedEntity s!"group {g.id} cannot be its own parent") := by
  simp [validate, hid, hname, hown]

namespace GroupStore

variable {s s' : GroupStore} {g old : Group} {id c p : GroupId} {now : Instant}
  {r : Group × GroupStore}

structure AgreeBut (s s' : GroupStore) (id : GroupId) : Prop where
  forest : Forest s
  forest' : Forest s'
  parents : ∀ c, c ≠ id → s'.parentOf c = s.parentOf c

namespace AgreeBut

theorem symm (h : AgreeBut s s' id) : AgreeBut s' s id :=
  ⟨h.forest', h.forest, fun c hc => (h.parents c hc).symm⟩

theorem above_of_not_mem (h : AgreeBut s s' id) (hc : c ≠ id) (hid : id ∉ s.above c) :
    s'.above c = s.above c := by
  refine h.forest.above_congr h.forest' (h.parents c hc) fun p hp => h.parents p ?_
  exact fun hpid => hid (hpid ▸ hp)

/-- A line that passes the group goes on after it with what is above the group now. -/
theorem above_of_isAbove (h : AgreeBut s s' id) (hid : s.IsAbove id c) : ∃ between, id ∉ between ∧
    s.above c = between ++ id :: s.above id ∧ s'.above c = between ++ id :: s'.above id := by
  have hne : ∀ {c}, s.IsAbove id c → c ≠ id := by
    intro c habove hc
    rw [hc] at habove
    exact h.forest.not_mem_above id (h.forest.mem_above_iff.2 habove)
  induction hid using Relation.TransGen.head_induction_on with
  | @single c hparent =>
    have hparent' : s'.parentOf c = some id := (h.parents c (hne (.single hparent))).trans hparent
    exact ⟨[], List.not_mem_nil, h.forest.above_of_parentOf hparent,
      h.forest'.above_of_parentOf hparent'⟩
  | @head c p hparent hrest ih =>
    obtain ⟨between, hnot, habove, habove'⟩ := ih
    have hparent' : s'.parentOf c = some p :=
      (h.parents c (hne (.head hparent hrest))).trans hparent
    refine ⟨p :: between, ?_, ?_, ?_⟩
    · simp [hnot, (hne hrest).symm]
    · rw [h.forest.above_of_parentOf hparent, habove]
      rfl
    · rw [h.forest'.above_of_parentOf hparent', habove']
      rfl

theorem isAbove_of_isAbove (h : AgreeBut s s' id) (hid : s.IsAbove id c) : s'.IsAbove id c := by
  obtain ⟨between, -, -, habove'⟩ := h.above_of_isAbove hid
  have hmem : id ∈ s'.above c := by simp [habove']
  exact h.forest'.mem_above_iff.1 hmem

theorem isAbove_iff (h : AgreeBut s s' id) : s'.IsAbove id c ↔ s.IsAbove id c :=
  ⟨h.symm.isAbove_of_isAbove, h.isAbove_of_isAbove⟩

end AgreeBut

/-- No parent is the group itself or below it. -/
theorem Forest.parentOf_ne (h : Forest s) (hp : p = id ∨ s.IsAbove id p) :
    s.parentOf id ≠ some p := by
  intro hparent
  have habove : s.IsAbove id id := by
    rcases hp with rfl | hp
    · exact .single hparent
    · exact .head hparent hp
  exact h.not_mem_above id (h.mem_above_iff.2 habove)

def Checked (s : GroupStore) : Prop := ∀ id g, s.groups.get? id = some g → g.validate = .ok ()

theorem Checked.insert (h : Checked s) (hg : g.validate = .ok ())
    (hgroups : s'.groups = s.groups.insert id g) :
    Checked s' := by
  intro c k hk
  rw [hgroups, Dict.get?_insert_eq_some_iff] at hk
  rcases hk with ⟨-, rfl⟩ | ⟨-, hk⟩
  · exact hg
  · exact h c k hk

/-- What is stored by an update has the identifier and the name of the group that was stored, and a
checked parent. -/
theorem validate_updated (hg : g.validate = .ok ()) (hid : old.id = g.id)
    (hname : old.name = g.name) :
    (updated old g now).validate = .ok () := by
  rw [Group.validate_eq_ok_iff] at hg ⊢
  simpa [updated, hid, hname] using hg

/-- Each change is made with a record that passed the check, or under the name and owner of one that
did. -/
theorem Checked.change (h : Checked s) (hn : Named s) (hs : s.Change s') : Checked s' := by
  cases hs with
  | save hs =>
    obtain ⟨hg, -, -, -, rfl⟩ := save_eq_ok_iff.1 hs
    exact h.insert hg rfl
  | update hs =>
    obtain ⟨hg, old, hold, hname, -, -, rfl⟩ := update_eq_ok_iff.1 hs
    exact h.insert (validate_updated hg (hn.id_of_get hold) hname) rfl
  | delete hs =>
    obtain ⟨_, -, -, -, rfl⟩ := delete_eq_ok_iff.1 hs
    exact fun c k hk => h c k (Dict.get?_erase_eq_some_iff.1 hk).2
  | assign hs =>
    obtain ⟨-, -, rfl⟩ := assign_eq_ok_iff.1 hs
    exact h
  | unassign hs =>
    obtain ⟨-, rfl⟩ := unassign_eq_ok_iff.1 hs
    exact h

theorem checked_afterAll (calls : List StoreCall) :
    Checked (Stores.empty.afterAll calls).groups := by
  have hboth : Sound (Stores.empty.afterAll calls).groups ∧
      Checked (Stores.empty.afterAll calls).groups := by
    refine Stores.groups_afterAll (P := fun s => Sound s ∧ Checked s)
      ⟨sound_afterAll [], nofun⟩ ?_ calls
    exact fun s s' h hs => ⟨h.1.change hs, h.2.change h.1.toNamed hs⟩
  exact hboth.2

theorem checkMove_of_missing (hp : s.groups.contains p = false) :
    s.checkMove id (some p) = .error (.notFound s!"parent group {p}") := by
  simp only [checkMove, requireParent, hp]
  rfl

/-- The walk upward from the new parent finds the group if the walk downward from the group finds
the parent. -/
theorem Sound.checkMove_eq (h : Sound s) (hp : s.groups.contains p = true) :
    s.checkMove id (some p) =
      if id ∈ s.above p ++ [p] then
        .error (.malformedEntity s!"moving group {id} under {p} would create a cycle")
      else .ok () := by
  simp only [checkMove, requireParent, hp, h.ancestors_eq hp]
  rfl

theorem Sound.checkMove_of_isAbove (h : Sound s) (hid : s.IsAbove id p) : s.checkMove id (some p) =
    .error (.malformedEntity s!"moving group {id} under {p} would create a cycle") := by
  have hmem : id ∈ s.above p ++ [p] := List.mem_append_left _ (h.forest.mem_above_of_isAbove hid)
  rw [h.checkMove_eq hid.stored, if_pos hmem]

theorem Sound.checkMove_elsewhere (h : Sound s) (hp : s.groups.contains p = true) (hne : p ≠ id)
    (hid : ¬s.IsAbove id p) : s.checkMove id (some p) = .ok () := by
  have hnot : id ∉ s.above p ++ [p] := by simpa [h.forest.mem_above_iff, hid] using hne.symm
  rw [h.checkMove_eq hp, if_neg hnot]

def relocated (s : GroupStore) (old g : Group) (now : Instant) : Group × GroupStore :=
  (updated old g now, { s with
    groups := s.groups.insert g.id (updated old g now)
    children := reparent s.children old.parent g.parent g.id })

structure IsMove (s : GroupStore) (old g : Group) : Prop where
  stored : s.groups.get? g.id = some old
  name : g.name = old.name
  owner : g.ownerId = old.ownerId
  parent : g.parent ≠ old.parent
  id_filled : g.id ≠ ""
  name_filled : Text.isBlank g.name = false

theorem Checked.isMove (h : Checked s) (hn : Named s) (hold : s.groups.get? g.id = some old)
    (hname : g.name = old.name) (howner : g.ownerId = old.ownerId)
    (hmoved : g.parent ≠ old.parent) : s.IsMove old g := by
  obtain ⟨hidFilled, hnameFilled, -⟩ := Group.validate_eq_ok_iff.1 (h g.id old hold)
  rw [hn.id_of_get hold] at hidFilled
  rw [← hname] at hnameFilled
  exact ⟨hold, hname, howner, hmoved, hidFilled, hnameFilled⟩

namespace IsMove

theorem contains (m : s.IsMove old g) : s.groups.contains g.id = true :=
  Dict.contains_iff.2 ⟨old, m.stored⟩

/-- Everything else is in order, so the check of the move decides. -/
theorem update_eq (m : s.IsMove old g) (now : Instant) (hown : g.parent ≠ some g.id) :
    s.update g now = (s.checkMove g.id g.parent).map fun _ => s.relocated old g now := by
  have hg : g.validate = .ok () := Group.validate_eq_ok_iff.2 ⟨m.id_filled, m.name_filled, hown⟩
  cases hmove : s.checkMove g.id g.parent <;>
    simp [update, hg, get_eq_ok_iff.2 m.stored, m.name, m.owner, m.parent.symm, hmove, relocated,
      reparent, updated, bind, Except.bind, Except.map, pure, Except.pure]

theorem update_to_root (m : s.IsMove old g) (now : Instant) (hparent : g.parent = none) :
    s.update g now = .ok (s.relocated old g now) := by
  rw [m.update_eq now (by simp [hparent]), hparent]
  rfl

theorem update_under_itself (m : s.IsMove old g) (now : Instant) (hparent : g.parent = some g.id) :
    s.update g now = .error (.malformedEntity s!"group {g.id} cannot be its own parent") := by
  rw [update, Group.validate_of_own_parent m.id_filled m.name_filled hparent]
  rfl

theorem update_under_missing (m : s.IsMove old g) (now : Instant) (hparent : g.parent = some p)
    (hp : s.groups.contains p = false) :
    s.update g now = .error (.notFound s!"parent group {p}") := by
  have hown : g.parent ≠ some g.id := by
    intro hown
    rw [Option.some.inj (hparent.symm.trans hown), m.contains] at hp
    cases hp
  rw [m.update_eq now hown, hparent, checkMove_of_missing hp]
  rfl

theorem update_under_descendant (m : s.IsMove old g) (h : Sound s) (now : Instant)
    (hparent : g.parent = some p) (hp : s.IsAbove g.id p) :
    s.update g now =
      .error (.malformedEntity s!"moving group {g.id} under {p} would create a cycle") := by
  have hown : g.parent ≠ some g.id := by
    intro hown
    rw [Option.some.inj (hparent.symm.trans hown)] at hp
    exact h.forest.not_mem_above g.id (h.forest.mem_above_of_isAbove hp)
  rw [m.update_eq now hown, hparent, h.checkMove_of_isAbove hp]
  rfl

theorem update_elsewhere (m : s.IsMove old g) (h : Sound s) (now : Instant)
    (hparent : g.parent = some p) (hp : s.groups.contains p = true) (hne : p ≠ g.id)
    (hnot : ¬s.IsAbove g.id p) :
    s.update g now = .ok (s.relocated old g now) := by
  have hown : g.parent ≠ some g.id := by simpa [hparent] using hne
  rw [m.update_eq now hown, hparent, h.checkMove_elsewhere hp hne hnot]
  rfl

end IsMove

theorem get?_update_ne (hs : s.update g now = .ok r) (hc : c ≠ g.id) :
    r.2.groups.get? c = s.groups.get? c := by
  obtain ⟨-, _, -, -, -, -, rfl⟩ := update_eq_ok_iff.1 hs
  exact Dict.get?_insert_ne s.groups hc _

theorem contains_update (hs : s.update g now = .ok r) (c : GroupId) :
    r.2.groups.contains c = s.groups.contains c := by
  by_cases hc : c = g.id
  · obtain ⟨-, old, hold, -, -, -, rfl⟩ := update_eq_ok_iff.1 hs
    simp [Dict.contains, hc, hold]
  · simp only [Dict.contains, get?_update_ne hs hc]

theorem records_update {ids : List GroupId} (hs : s.update g now = .ok r) (hid : g.id ∉ ids) :
    r.2.records ids = s.records ids :=
  List.filterMap_congr fun _ hc => get?_update_ne hs fun he => hid (he ▸ hc)

theorem Sound.agreeBut_update (h : Sound s) (hs : s.update g now = .ok r) : AgreeBut s r.2 g.id :=
  ⟨h.forest, (h.change (.update hs)).forest, fun _ hc => parentOf_update hs hc⟩

theorem Sound.retrieveAncestors_update (h : Sound s) (hs : s.update g now = .ok r) (hc : c ≠ g.id)
    (hid : ¬s.IsAbove g.id c) : r.2.retrieveAncestors c = s.retrieveAncestors c := by
  have hnot : g.id ∉ s.above c := fun hmem => hid (h.forest.mem_above_iff.1 hmem)
  have habove : r.2.above c = s.above c := (h.agreeBut_update hs).above_of_not_mem hc hnot
  exact h.retrieveAncestors_congr (h.change (.update hs)) (contains_update hs c) habove
    (records_update hs hnot)

/-- Neither the old nor the new parent is the group itself or below it, so no list of children there
has changed. -/
theorem Sound.childrenOf_update (h : Sound s) (hs : s.update g now = .ok r)
    (hp : p = g.id ∨ s.IsAbove g.id p) :
    r.2.childrenOf p = s.childrenOf p := by
  have hagree : AgreeBut s r.2 g.id := h.agreeBut_update hs
  have hafter : r.2.parentOf g.id ≠ some p := by
    rw [← hagree.isAbove_iff] at hp
    exact hagree.forest'.parentOf_ne hp
  have hbefore : s.parentOf g.id ≠ some p := h.forest.parentOf_ne hp
  rw [parentOf_update_self hs] at hafter
  obtain ⟨-, old, hold, -, -, -, rfl⟩ := update_eq_ok_iff.1 hs
  rw [parentOf_eq hold] at hbefore
  exact childrenIn_reparent_ne hbefore hafter

/-- The same groups are below the group, in the same order. -/
theorem Sound.retrieveDescendants_update (h : Sound s) (hs : s.update g now = .ok r) :
    r.2.retrieveDescendants g.id = s.retrieveDescendants g.id := by
  have h' : Sound r.2 := h.change (.update hs)
  have hagree : AgreeBut s r.2 g.id := h.agreeBut_update hs
  obtain ⟨-, old, hold, -⟩ := update_eq_ok_iff.1 hs
  have hid : s.groups.contains g.id = true := Dict.contains_iff.2 ⟨old, hold⟩
  have hid' : r.2.groups.contains g.id = true := (contains_update hs g.id).trans hid
  obtain ⟨found, hfound, d⟩ := h.retrieveDescendants_eq_records hid
  obtain ⟨found', hfound', d'⟩ := h'.retrieveDescendants_eq_records hid'
  have hchildren : ∀ p ∈ g.id :: found', r.2.childrenOf p = s.childrenOf p := by
    intro p hp
    refine h.childrenOf_update hs ((List.mem_cons.1 hp).imp_right fun hp => ?_)
    exact hagree.isAbove_iff.1 (d'.below p hp)
  -- both lists follow the group as rows with the same children, and there is only one such row
  have hrow : found = ([g.id] ++ found).flatMap s.childrenOf := d.children
  have hrow' : found' = ([g.id] ++ found').flatMap s.childrenOf :=
    d'.children.trans (List.flatMap_congr hchildren)
  have hsame : found' = found := row_unique h.length_above_of_child hrow' hrow
  have hnot : g.id ∉ found := (List.nodup_cons.1 d.nodup).1
  rw [hfound', hfound, hsame, records_update hs hnot]

theorem retrieveMembers_update (hs : s.update g now = .ok r) (c : GroupId) :
    r.2.retrieveMembers c = s.retrieveMembers c := by
  rw [retrieveMembers_eq, retrieveMembers_eq, contains_update hs, membersOf_update hs]

theorem Sound.ids_retrieveMemberships_update (h : Sound s) (hs : s.update g now = .ok r)
    (member : String) :
    Stores.ids <$> r.2.retrieveMemberships member =
      Stores.ids <$> s.retrieveMemberships member := by
  have h' : Sound r.2 := h.change (.update hs)
  obtain ⟨gs, hgs, hids⟩ := h.retrieveMemberships_eq member
  obtain ⟨gs', hgs', hids'⟩ := h'.retrieveMemberships_eq member
  have hsame : r.2.assignedTo member = s.assignedTo member :=
    h.toEnrolled.assignedTo_congr h'.toEnrolled fun id => by rw [membersOf_update hs]
  rw [hgs, hgs']
  exact congrArg Except.ok ((hids'.trans hsame).trans hids.symm)

def ancestorIds (s : GroupStore) (id : GroupId) : Result (List GroupId) :=
  Stores.ids <$> s.retrieveAncestors id

def onward (s : GroupStore) : Option GroupId → Result (List GroupId)
  | none => .ok []
  | some p => (p :: ·) <$> s.ancestorIds p

/-- What the queries answer after a move: the line above the group is another one, and the lines of
all that is below the group end in that one. Nothing else has changed. -/
structure Moved (s s' : GroupStore) (id : GroupId) (below up up' : List GroupId) : Prop where
  self : s'.ancestorIds id = .ok up'
  spliced : ∀ c ∈ below, ∃ between, id ∉ between ∧
    s.ancestorIds c = .ok (between ++ id :: up) ∧ s'.ancestorIds c = .ok (between ++ id :: up')
  others : ∀ c, c ≠ id → c ∉ below → s'.retrieveAncestors c = s.retrieveAncestors c
  descendants : s'.retrieveDescendants id = s.retrieveDescendants id
  members : ∀ c, s'.retrieveMembers c = s.retrieveMembers c
  memberships : ∀ member,
    Stores.ids <$> s'.retrieveMemberships member = Stores.ids <$> s.retrieveMemberships member

theorem Sound.ancestorIds_eq (h : Sound s) (hid : s.groups.contains id = true) :
    s.ancestorIds id = .ok (s.above id) := by
  rw [ancestorIds, h.retrieveAncestors_eq_records hid]
  exact congrArg Except.ok (h.ids_records (h.forest.above_stored id))

/-- The new line goes on at the new parent with what was above that one before, which the move
leaves alone. -/
theorem Sound.onward_eq (h : Sound s) (hs : s.update g now = .ok r) :
    s.onward g.parent = .ok (r.2.above g.id) := by
  have h' : Sound r.2 := h.change (.update hs)
  have hagree : AgreeBut s r.2 g.id := h.agreeBut_update hs
  have hself : r.2.parentOf g.id = g.parent := parentOf_update_self hs
  cases hparent : g.parent with
  | none =>
    rw [h'.forest.above_eq, hself, hparent]
    rfl
  | some p =>
    rw [hparent] at hself
    have hstored : s.groups.contains p = true := by
      rw [← contains_update hs]
      exact h'.forest.above_stored g.id p
        (h'.forest.above_of_parentOf hself ▸ List.mem_cons_self ..)
    have hne : p ≠ g.id := fun hp => h'.forest.parentOf_ne (.inl hp) hself
    have hnot : g.id ∉ s.above p := by
      intro hmem
      exact h'.forest.parentOf_ne
        (.inr (hagree.isAbove_iff.2 (h.forest.mem_above_iff.1 hmem))) hself
    rw [onward, h.ancestorIds_eq hstored, h'.forest.above_of_parentOf hself,
      hagree.above_of_not_mem hne hnot]
    rfl

/-- All that the queries say after a move, put together from the lines above each group. -/
theorem Sound.moved_update (h : Sound s) (hs : s.update g now = .ok r) {below : List GroupId}
    (hbelow : ∀ c, c ∈ below ↔ s.IsAbove g.id c) :
    Moved s r.2 g.id below (s.above g.id) (r.2.above g.id) := by
  have h' : Sound r.2 := h.change (.update hs)
  obtain ⟨-, old, hold, -⟩ := update_eq_ok_iff.1 hs
  have hid : r.2.groups.contains g.id = true :=
    (contains_update hs g.id).trans (Dict.contains_iff.2 ⟨old, hold⟩)
  refine ⟨h'.ancestorIds_eq hid, fun c hc => ?_, fun c hne hc => ?_,
    h.retrieveDescendants_update hs, retrieveMembers_update hs, h.ids_retrieveMemberships_update hs⟩
  · rw [hbelow] at hc
    obtain ⟨between, hnot, habove, habove'⟩ := (h.agreeBut_update hs).above_of_isAbove hc
    refine ⟨between, hnot, ?_, ?_⟩
    · rw [h.ancestorIds_eq hc.stored, habove]
    · rw [h'.ancestorIds_eq ((contains_update hs c).trans hc.stored), habove']
  · rw [hbelow] at hc
    exact h.retrieveAncestors_update hs hne hc

/-- After every run an update that gives a stored group another parent succeeds exactly when that
parent is stored and neither the group itself nor a descendant of it, or when there is to be none.
It takes the group with everything below it there: their lines of ancestors go on at the new parent.
No other line changes, nor the list of descendants of the group, nor any membership. -/
theorem update_moves_subtree (calls : List StoreCall) (old g : Group) (now : Instant)
    (hold : (Stores.empty.afterAll calls).groups.get g.id = .ok old) (hname : g.name = old.name)
    (howner : g.ownerId = old.ownerId) (hmoved : g.parent ≠ old.parent) :
    let s := (Stores.empty.afterAll calls).groups
    ∃ below up, s.retrieveDescendants g.id = .ok below ∧ s.ancestorIds g.id = .ok up ∧
      (g.parent = none → ∃ r, s.update g now = .ok r) ∧
      (∀ p, g.parent = some p →
        ((∃ r, s.update g now = .ok r) ↔ (∃ q, s.get p = .ok q) ∧ p ≠ g.id ∧ p ∉ Stores.ids below) ∧
        ((∀ q, s.get p ≠ .ok q) → s.update g now = .error (.notFound s!"parent group {p}")) ∧
        (p = g.id →
          s.update g now = .error (.malformedEntity s!"group {g.id} cannot be its own parent")) ∧
        (p ∈ Stores.ids below →
          s.update g now =
            .error (.malformedEntity s!"moving group {g.id} under {p} would create a cycle"))) ∧
      ∀ r, s.update g now = .ok r →
        ∃ up', s.onward g.parent = .ok up' ∧ Moved s r.2 g.id (Stores.ids below) up up' := by
  intro s
  have h : Sound s := sound_afterAll calls
  have m : s.IsMove old g :=
    (checked_afterAll calls).isMove h.toNamed (get_eq_ok_iff.1 hold) hname howner hmoved
  obtain ⟨below, hbelow, -, hmem⟩ := h.retrieveDescendants_eq m.contains
  have hdescendant : ∀ p, p ∈ Stores.ids below ↔ s.IsAbove g.id p := hmem
  refine ⟨below, s.above g.id, hbelow, h.ancestorIds_eq m.contains, ?_, ?_, ?_⟩
  · exact fun hroot => ⟨_, m.update_to_root now hroot⟩
  · intro p hparent
    have hstored : (∃ q, s.get p = .ok q) ↔ s.groups.contains p = true := by
      simp only [get_eq_ok_iff, Dict.contains_iff]
    have hmissing : s.groups.contains p = false →
        s.update g now = .error (.notFound s!"parent group {p}") :=
      m.update_under_missing now hparent
    have hown : p = g.id →
        s.update g now = .error (.malformedEntity s!"group {g.id} cannot be its own parent") :=
      fun hp => m.update_under_itself now (hp ▸ hparent)
    have hcycle : s.IsAbove g.id p →
        s.update g now =
          .error (.malformedEntity s!"moving group {g.id} under {p} would create a cycle") :=
      m.update_under_descendant h now hparent
    rw [hdescendant, hstored]
    refine ⟨⟨?_, ?_⟩, ?_, hown, hcycle⟩
    · rintro ⟨r, hs⟩
      refine ⟨?_, fun hp => ?_, fun hp => ?_⟩
      · by_contra hp
        cases hs.symm.trans (hmissing (Bool.eq_false_iff.2 hp))
      · cases hs.symm.trans (hown hp)
      · cases hs.symm.trans (hcycle hp)
    · rintro ⟨hp, hne, hnot⟩
      exact ⟨_, m.update_elsewhere h now hparent hp hne hnot⟩
    · intro hnone
      refine hmissing (Bool.eq_false_iff.2 fun hp => ?_)
      obtain ⟨q, hq⟩ := hstored.2 hp
      exact hnone q hq
  · intro r hs
    exact ⟨_, h.onward_eq hs, h.moved_update hs hdescendant⟩

/-- Development, with the web team below it, goes to the night shift. -/
theorem development_moves_to_night :
    let s := (Stores.empty.afterAll sampleForest).groups
    let moved := plainGroup "dev" (some "night")
    s.get moved.id = .ok (plainGroup "dev" (some "company")) ∧ moved.parent ≠ some "company" ∧
    ∃ r, s.update moved ⟨1, 0⟩ = .ok r ∧ r.2.ancestorIds "dev" = .ok ["night", "ops", "company"] ∧
      Moved s r.2 "dev" ["web"] ["company"] ["night", "ops", "company"] := by
  intro s moved
  have hold : s.get moved.id = .ok (plainGroup "dev" (some "company")) := rfl
  have hmoved : moved.parent ≠ (plainGroup "dev" (some "company")).parent := by decide
  obtain ⟨below, up, hbelow, hup, -, hunder, heffect⟩ :=
    update_moves_subtree sampleForest _ moved ⟨1, 0⟩ hold rfl rfl hmoved
  have hids : Stores.ids <$> s.retrieveDescendants moved.id = .ok ["web"] := by decide
  have hline : s.ancestorIds moved.id = .ok ["company"] := by decide
  have honward : s.onward (some "night") = .ok ["night", "ops", "company"] := by decide
  rw [hbelow] at hids
  have hweb : Stores.ids below = ["web"] := Except.ok.inj hids
  have hcompany : up = ["company"] := Except.ok.inj (hup.symm.trans hline)
  rw [hweb, hcompany] at heffect
  rw [hweb] at hunder
  obtain ⟨r, hs⟩ :=
    (hunder "night" rfl).1.2 ⟨⟨plainGroup "night" (some "ops"), rfl⟩, by decide, by decide⟩
  obtain ⟨up', hup', heffect⟩ := heffect r hs
  have hnight : up' = ["night", "ops", "company"] := Except.ok.inj (hup'.symm.trans honward)
  rw [hnight] at heffect
  exact ⟨hold, hmoved, r, hs, heffect.self, heffect⟩

end GroupStore
end AccessControl
