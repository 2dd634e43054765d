import AccessControl.Proofs.GroupStore.Forest
import Mathlib.Logic.Relation

/-! # Who is above a group, and where a member belongs

What the queries of the store answer, said without its indices and without the guards of its walk:
the groups above one by going from parent to parent, and the groups of a member by looking through
the members of each group.
-/
namespace AccessControl.GroupStore

variable {s : GroupStore} {g : Group} {id p : GroupId} {member : String}

def parentOf (s : GroupStore) (id : GroupId) : Option GroupId := (s.groups.get? id).bind (·.parent)

/-- The groups that are met by going from parent to parent, for so many steps. -/
def lineage (s : GroupStore) : Nat → GroupId → List GroupId
  | 0, _ => []
  | steps + 1, id =>
    match s.parentOf id with
    | some p => p :: s.lineage steps p
    | none => []

def above (s : GroupStore) (id : GroupId) : List GroupId := s.lineage s.groups.size id

def assignedTo (s : GroupStore) (member : String) : List GroupId :=
  s.groups.keys.filter fun id => member ∈ s.membersOf id

def IsAbove (s : GroupStore) (p id : GroupId) : Prop :=
  Relation.TransGen (fun c q => s.parentOf c = some q) id p

theorem parentOf_eq (hg : s.groups.get? id = some g) : s.parentOf id = g.parent := by
  simp [parentOf, hg]

theorem Forest.line_of_parentOf (h : Forest s) (id : GroupId) :
    ∃ line, Line s (s.parentOf id) line := by
  cases hg : s.groups.get? id with
  | none => exact ⟨[], by simpa [parentOf, hg] using Line.root⟩
  | some g =>
    rw [parentOf_eq hg]
    exact h id g hg

/-- A line of parents is found by going upward for at least as many steps as it has groups. -/
theorem Line.lineage_eq {steps : Nat} {line : List GroupId} (h : Line s (s.parentOf id) line)
    (hsteps : line.length ≤ steps) : s.lineage steps id = line := by
  induction steps generalizing id line with
  | zero => exact (List.length_eq_zero_iff.1 (Nat.le_zero.1 hsteps)).symm
  | succ steps ih =>
    cases hp : s.parentOf id with
    | none =>
      rw [hp] at h
      cases h
      simp [lineage, hp]
    | some p =>
      rw [hp] at h
      cases h with
      | up hg hline =>
        rw [← parentOf_eq hg] at hline
        simp [lineage, hp, ih hline (Nat.le_of_succ_le_succ hsteps)]

theorem Forest.line_above (h : Forest s) (id : GroupId) : Line s (s.parentOf id) (s.above id) := by
  obtain ⟨line, hline⟩ := h.line_of_parentOf id
  rwa [above, hline.lineage_eq hline.length_le]

/-- No group is left out above: after the parent come the groups above the parent. -/
theorem Forest.above_eq (h : Forest s) (id : GroupId) :
    s.above id = (s.parentOf id).elim [] fun p => p :: s.above p := by
  have hline := h.line_above id
  generalize s.above id = line at hline
  cases hp : s.parentOf id with
  | none =>
    rw [hp] at hline
    cases hline
    rfl
  | some p =>
    rw [hp] at hline
    cases hline with
    | up hg hrest =>
      rw [← parentOf_eq hg] at hrest
      rw [hrest.unique (h.line_above p)]
      rfl

theorem Forest.above_of_missing (h : Forest s) (hid : s.groups.contains id = false) :
    s.above id = [] := by
  have hnone : s.parentOf id = none := by rw [parentOf, Dict.contains_eq_false_iff.1 hid]; rfl
  rw [h.above_eq, hnone]
  rfl

theorem Forest.mem_above_of_isAbove (h : Forest s) (hp : s.IsAbove p id) : p ∈ s.above id := by
  induction hp using Relation.TransGen.head_induction_on with
  | single hparent =>
    rw [h.above_eq, hparent]
    exact List.mem_cons_self ..
  | head hparent _ ih =>
    rw [h.above_eq, hparent]
    exact List.mem_cons_of_mem _ ih

theorem Line.isAbove {line : List GroupId} (h : Line s (s.parentOf id) line) (hp : p ∈ line) :
    s.IsAbove p id := by
  generalize hcursor : s.parentOf id = cursor at h
  induction h generalizing id with
  | root => cases hp
  | @up q g line hg hline ih =>
    rcases List.mem_cons.1 hp with rfl | hp
    · exact .single hcursor
    · exact .head hcursor (ih hp (parentOf_eq hg))

theorem Forest.mem_above_iff (h : Forest s) : p ∈ s.above id ↔ s.IsAbove p id :=
  ⟨(h.line_above id).isAbove, h.mem_above_of_isAbove⟩

/-- What lies above a group depends on its parent and on the parents of what lies above it. -/
theorem Forest.above_congr {s' : GroupStore} {id : GroupId} (h : Forest s) (h' : Forest s')
    (hid : s'.parentOf id = s.parentOf id)
    (habove : ∀ p ∈ s.above id, s'.parentOf p = s.parentOf p) :
    s'.above id = s.above id := by
  rw [h'.above_eq, h.above_eq, hid]
  cases hp : s.parentOf id with
  | none => rfl
  | some p =>
    have hline : s.above id = p :: s.above p := by
      rw [h.above_eq, hp]
      rfl
    have hrest : s'.above p = s.above p := by
      refine h.above_congr h' (habove p ?_) fun q hq => habove q ?_
      · exact hline ▸ List.mem_cons_self ..
      · exact hline ▸ List.mem_cons_of_mem _ hq
    exact congrArg (p :: ·) hrest
termination_by (s.above id).length
decreasing_by
  rw [hline]
  exact Nat.lt_succ_self _

theorem Forest.above_nodup (h : Forest s) (id : GroupId) : (s.above id).Nodup :=
  (h.line_above id).nodup

/-- A group is not above itself. -/
theorem Forest.not_mem_above (h : Forest s) (id : GroupId) : id ∉ s.above id := by
  have hline := h.line_above id
  cases hg : s.groups.get? id with
  | none =>
    rw [h.above_of_missing (Dict.contains_eq_false_iff.2 hg)]
    exact List.not_mem_nil
  | some g =>
    rw [parentOf_eq hg] at hline
    exact not_mem_line hg hline

theorem Enrolled.assignedTo_eq (h : Enrolled s) (member : String) :
    s.assignedTo member = s.groupsOf member := by
  apply Dict.eq_of_sorted_of_mem_iff
  · exact s.groups.keys_sorted.filter _
  · exact Dict.elements_sorted _ _
  · intro id
    rw [assignedTo, List.mem_filter, decide_eq_true_eq, h.members_iff, Dict.mem_keys_iff,
      ← Dict.contains_iff]
    exact ⟨And.right, fun hid => ⟨h.stored (h.members_iff.2 hid), hid⟩⟩

theorem Enrolled.mem_assignedTo_iff {g : GroupId} (h : Enrolled s) :
    g ∈ s.assignedTo member ↔ member ∈ s.membersOf g := by
  rw [h.assignedTo_eq]
  exact h.members_iff.symm

theorem Enrolled.assignedTo_congr {s' : GroupStore} (h : Enrolled s) (h' : Enrolled s')
    (hmembers : ∀ g, member ∈ s'.membersOf g ↔ member ∈ s.membersOf g) :
    s'.assignedTo member = s.assignedTo member := by
  apply Dict.eq_of_sorted_of_mem_iff
  · exact s'.groups.keys_sorted.filter _
  · exact s.groups.keys_sorted.filter _
  · intro g
    rw [h'.mem_assignedTo_iff, h.mem_assignedTo_iff, hmembers]

def records (s : GroupStore) (ids : List GroupId) : List Group := ids.filterMap s.groups.get?

theorem resolve_eq_records {ids : List GroupId} (hids : ∀ id ∈ ids, s.groups.contains id = true) :
    s.resolve ids = .ok (s.records ids) := by
  induction ids with
  | nil => rfl
  | cons id rest ih =>
    obtain ⟨g, hg⟩ := Dict.contains_iff.1 (hids id (List.mem_cons_self ..))
    rw [resolve, records, List.filterMap_cons_some hg, hg]
    simp only [ih fun j hj => hids j (List.mem_cons_of_mem _ hj)]
    rfl

theorem Named.ids_records (h : Named s) {ids : List GroupId}
    (hids : ∀ id ∈ ids, s.groups.contains id = true) :
    Stores.ids (s.records ids) = ids := by
  induction ids with
  | nil => rfl
  | cons id rest ih =>
    obtain ⟨g, hg⟩ := Dict.contains_iff.1 (hids id (List.mem_cons_self ..))
    rw [records, List.filterMap_cons_some hg]
    exact congrArg₂ List.cons (h.id_of_get hg) (ih fun j hj => hids j (List.mem_cons_of_mem _ hj))

theorem Forest.above_stored (h : Forest s) (id : GroupId) :
    ∀ p ∈ s.above id, s.groups.contains p = true :=
  fun _ hp => (h.line_above id).stored hp

theorem Sound.ancestors_eq (h : Sound s) (hid : s.groups.contains id = true) :
    s.ancestors id = .ok (s.above id) := by
  obtain ⟨g, hg⟩ := Dict.contains_iff.1 hid
  have hline := h.forest.line_above id
  rw [parentOf_eq hg] at hline
  exact ancestors_eq_of_line hg hline

theorem Sound.retrieveAncestors_eq_records (h : Sound s) (hid : s.groups.contains id = true) :
    s.retrieveAncestors id = .ok (s.records (s.above id)) := by
  rw [retrieveAncestors, h.ancestors_eq hid]
  exact resolve_eq_records (h.forest.above_stored id)

theorem Sound.retrieveAncestors_eq (h : Sound s) (hid : s.groups.contains id = true) :
    ∃ gs, s.retrieveAncestors id = .ok gs ∧ gs.map (·.id) = s.above id :=
  ⟨_, h.retrieveAncestors_eq_records hid, h.ids_records (h.forest.above_stored id)⟩

theorem retrieveAncestors_eq_notFound (hid : s.groups.contains id = false) :
    s.retrieveAncestors id = .error (.notFound s!"group {id}") := by
  rw [Dict.contains_eq_false_iff] at hid
  simp only [retrieveAncestors, ancestors, get, hid]
  rfl

/-- The same line with the same records is the same answer. -/
theorem Sound.retrieveAncestors_congr (h : Sound s) (h' : Sound s')
    (hstored : s'.groups.contains id = s.groups.contains id) (habove : s'.above id = s.above id)
    (hrecords : s'.records (s.above id) = s.records (s.above id)) :
    s'.retrieveAncestors id = s.retrieveAncestors id := by
  cases hid : s.groups.contains id with
  | false =>
    rw [retrieveAncestors_eq_notFound hid, retrieveAncestors_eq_notFound (hstored.trans hid)]
  | true =>
    rw [h.retrieveAncestors_eq_records hid, h'.retrieveAncestors_eq_records (hstored.trans hid),
      habove, hrecords]

theorem retrieveMembers_eq (s : GroupStore) (id : GroupId) : s.retrieveMembers id =
    if s.groups.contains id = true then .ok (s.membersOf id)
      else .error (.notFound s!"group {id}") := by
  cases hg : s.groups.get? id <;>
    simp [retrieveMembers, get, hg, Dict.contains, bind, Except.bind, pure, Except.pure]

theorem Enrolled.groupsOf_stored (h : Enrolled s) (member : String) :
    ∀ id ∈ s.groupsOf member, s.groups.contains id = true :=
  fun _ hid => h.stored (h.members_iff.2 hid)

theorem Enrolled.retrieveMemberships_eq_records (h : Enrolled s) (member : String) :
    s.retrieveMemberships member = .ok (s.records (s.groupsOf member)) :=
  resolve_eq_records (h.groupsOf_stored member)

theorem Valid.retrieveMemberships_eq (h : Valid s) (member : String) :
    ∃ gs, s.retrieveMemberships member = .ok gs ∧ gs.map (·.id) = s.assignedTo member := by
  rw [h.assignedTo_eq]
  exact ⟨_, h.retrieveMemberships_eq_records member, h.ids_records (h.groupsOf_stored member)⟩

end AccessControl.GroupStore
