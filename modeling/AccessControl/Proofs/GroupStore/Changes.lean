import AccessControl.GroupStore
import AccessControl.Proofs.Indices

/-! # What a change of the group store can do

For each change the conditions under which it succeeds, in the order of its checks, and the store
that it leaves. The lists of children are read through the group that they belong to.
-/
namespace AccessControl

theorem Group.validate_eq_ok_iff {g : Group} :
    g.validate = .ok () ↔ g.id ≠ "" ∧ Text.isBlank g.name = false ∧ g.parent ≠ some g.id := by
  rw [validate, Result.guard_eq_ok_iff, Result.guard_eq_ok_iff, Result.guard_eq_ok_iff,
    String.isEmpty_iff, Bool.not_eq_true]
  simp only [ne_eq, and_true]

namespace GroupStore

variable {s s' : GroupStore} {g : Group} {id : GroupId} {member : String}

theorem get_eq_ok_iff : s.get id = .ok g ↔ s.groups.get? id = some g := by
  unfold get
  cases h : s.groups.get? id <;> simp

theorem requireParent_eq_ok_iff {parent : Option GroupId} :
    s.requireParent parent = .ok () ↔ ∀ p, parent = some p → s.groups.contains p = true := by
  cases parent with
  | none => simp [requireParent]
  | some p => by_cases h : s.groups.contains p = true <;> simp [requireParent, h]

theorem save_eq_ok_iff : s.save g = .ok s' ↔
    g.validate = .ok () ∧ s.groups.contains g.id = false ∧ s.byName.contains g.name = false ∧
    (∀ p, g.parent = some p → s.groups.contains p = true) ∧
    s' = { s with
      groups := s.groups.insert g.id g
      byName := s.byName.insert g.name g.id
      children := attach s.children g.parent g.id } := by
  rw [save, Result.check_eq_ok_iff, Result.guard_eq_ok_iff, Result.guard_eq_ok_iff,
    Result.check_eq_ok_iff, requireParent_eq_ok_iff, Bool.not_eq_true, Bool.not_eq_true]
  simp only [pure, Except.pure, Except.ok.injEq, eq_comm (b := s')]

theorem parent_stored_of_checkMove {parent : Option GroupId} {p : GroupId}
    (h : s.checkMove id parent = .ok ()) (hp : parent = some p) : s.groups.contains p = true := by
  subst hp
  exact requireParent_eq_ok_iff.1 (Result.check_eq_ok_iff.1 h).1 p rfl

def updated (old g : Group) (now : Instant) : Group :=
  { old with
    description := g.description, metadata := g.metadata, parent := g.parent, updatedAt := now }

def reparent (children : Dict GroupId (List GroupId)) (old new : Option GroupId) (id : GroupId) :
    Dict GroupId (List GroupId) :=
  if old ≠ new then attach (detach children old id) new id else children

/-- An update succeeds when the name and the owner are those stored and a new parent can be gone to;
then the record and the lists of children have changed, and nothing else. -/
theorem update_eq_ok_iff {now : Instant} {r : Group × GroupStore} : s.update g now = .ok r ↔
    g.validate = .ok () ∧ ∃ old, s.groups.get? g.id = some old ∧
    old.name = g.name ∧ old.ownerId = g.ownerId ∧
    (old.parent ≠ g.parent → s.checkMove g.id g.parent = .ok ()) ∧
    r = (updated old g now, { s with
      groups := s.groups.insert g.id (updated old g now)
      children := reparent s.children old.parent g.parent g.id }) := by
  rw [update, Result.check_eq_ok_iff, Result.bind_eq_ok_iff]
  refine and_congr_right fun _ => exists_congr fun old => ?_
  rw [get_eq_ok_iff, Result.guard_eq_ok_iff, Result.guard_eq_ok_iff, Decidable.not_not,
    Decidable.not_not]
  refine and_congr_right fun _ => and_congr_right fun _ => and_congr_right fun _ => ?_
  by_cases h : old.parent = g.parent
  · simp [h, reparent, updated, pure, Except.pure, eq_comm (b := r)]
  · simp only [h, ne_eq, not_false_eq_true, ↓reduceIte, Result.check_eq_ok_iff, true_implies]
    simp [h, reparent, updated, pure, Except.pure, eq_comm (b := r)]

theorem delete_eq_ok_iff : s.delete id = .ok s' ↔
    ∃ g, s.groups.get? id = some g ∧ s.childrenOf id = [] ∧ s.membersOf id = [] ∧
    s' = { s with
      groups := s.groups.erase id
      byName := s.byName.erase g.name
      children := detach s.children g.parent id } := by
  rw [delete, Result.bind_eq_ok_iff]
  refine exists_congr fun g => ?_
  rw [get_eq_ok_iff, Result.guard_eq_ok_iff, not_or, Nat.not_lt, Nat.not_lt, Nat.le_zero,
    Nat.le_zero, List.length_eq_zero_iff, List.length_eq_zero_iff, and_assoc]
  simp only [pure, Except.pure, Except.ok.injEq, eq_comm (b := s')]

theorem delete_of_missing (h : s.groups.get? id = none) :
    s.delete id = .error (.notFound s!"group {id}") := by
  simp only [delete, get, h]
  rfl

/-- A group that was deleted is not there to be deleted. -/
theorem delete_of_delete (h : s.delete id = .ok s') :
    s'.delete id = .error (.notFound s!"group {id}") := by
  obtain ⟨g, _, _, _, rfl⟩ := delete_eq_ok_iff.1 h
  exact delete_of_missing (Dict.get?_erase_self s.groups id)

theorem assign_eq_ok_iff : s.assign member id = .ok s' ↔
    member ≠ "" ∧ s.groups.contains id = true ∧
    s' = { s with
      members := s.members.enter id member
      memberships := s.memberships.enter member id } := by
  rw [assign, Result.guard_eq_ok_iff, String.isEmpty_iff, Result.bind_eq_ok_iff, Dict.contains_iff]
  simp only [get_eq_ok_iff, exists_and_right, pure, Except.pure, Except.ok.injEq,
    eq_comm (b := s'), ne_eq]

theorem unassign_eq_ok_iff : s.unassign member id = .ok s' ↔
    s.groups.contains id = true ∧
    s' = { s with
      members := s.members.forget id member
      memberships := s.memberships.forget member id } := by
  rw [unassign, Result.bind_eq_ok_iff, Dict.contains_iff]
  simp only [get_eq_ok_iff, exists_and_right, pure, Except.pure, Except.ok.injEq, eq_comm (b := s')]

def childrenIn (children : Dict GroupId (List GroupId)) (p : GroupId) : List GroupId :=
  (children.get? p).getD []

theorem childrenOf_eq_childrenIn (s : GroupStore) (p : GroupId) :
    s.childrenOf p = childrenIn s.children p := rfl

variable {children : Dict GroupId (List GroupId)} {parent : Option GroupId} {child p q : GroupId}

theorem childrenIn_attach_self :
    childrenIn (attach children (some p) child) p = childrenIn children p ++ [child] := by
  simp [childrenIn, attach]

theorem childrenIn_attach_ne (h : parent ≠ some q) :
    childrenIn (attach children parent child) q = childrenIn children q := by
  cases parent with
  | none => rfl
  | some p =>
    have hqp : q ≠ p := fun hqp => h (by rw [hqp])
    simp [childrenIn, attach, Dict.get?_insert_ne children hqp]

theorem detach_of_get?_eq_none (h : children.get? p = none) :
    detach children (some p) child = children := by
  simp only [detach, h]

theorem detach_of_get?_eq_some {siblings : List GroupId} (h : children.get? p = some siblings) :
    detach children (some p) child =
      if (siblings.filter (· != child)).isEmpty then children.erase p
      else children.insert p (siblings.filter (· != child)) := by
  simp only [detach, h]

theorem childrenIn_detach_self :
    childrenIn (detach children (some p) child) p =
      (childrenIn children p).filter (· != child) := by
  cases hp : children.get? p with
  | none =>
    rw [detach_of_get?_eq_none hp]
    simp [childrenIn, hp]
  | some siblings =>
    rw [detach_of_get?_eq_some hp]
    by_cases he : (siblings.filter (· != child)).isEmpty = true
    · rw [if_pos he]
      simp [childrenIn, hp, List.isEmpty_iff.1 he]
    · rw [if_neg he]
      simp [childrenIn, hp]

theorem childrenIn_detach_ne (h : parent ≠ some q) :
    childrenIn (detach children parent child) q = childrenIn children q := by
  cases parent with
  | none => rfl
  | some p =>
    have hqp : q ≠ p := fun hqp => h (by rw [hqp])
    cases hp : children.get? p with
    | none => rw [detach_of_get?_eq_none hp]
    | some siblings =>
      rw [detach_of_get?_eq_some hp]
      split
      · simp [childrenIn, Dict.get?_erase_ne children hqp]
      · simp [childrenIn, Dict.get?_insert_ne children hqp]

theorem mem_childrenIn_attach {c : GroupId} : c ∈ childrenIn (attach children parent child) p ↔
    c ∈ childrenIn children p ∨ parent = some p ∧ c = child := by
  by_cases h : parent = some p
  · subst h
    simp [childrenIn_attach_self]
  · simp [childrenIn_attach_ne h, h]

theorem mem_childrenIn_detach {c : GroupId} : c ∈ childrenIn (detach children parent child) p ↔
    c ∈ childrenIn children p ∧ ¬(parent = some p ∧ c = child) := by
  by_cases h : parent = some p
  · subst h
    simp [childrenIn_detach_self]
  · simp [childrenIn_detach_ne h, h]

theorem nodup_childrenIn_attach (h : (childrenIn children p).Nodup)
    (hnew : child ∉ childrenIn children p) :
    (childrenIn (attach children parent child) p).Nodup := by
  by_cases hp : parent = some p
  · subst hp
    rw [childrenIn_attach_self]
    refine List.nodup_append.2 ⟨h, List.nodup_cons.2 ⟨List.not_mem_nil, List.nodup_nil⟩, ?_⟩
    intro a ha b hb hab
    rw [List.mem_singleton.1 hb] at hab
    exact hnew (hab ▸ ha)
  · rwa [childrenIn_attach_ne hp]

theorem nodup_childrenIn_detach (h : (childrenIn children p).Nodup) :
    (childrenIn (detach children parent child) p).Nodup := by
  by_cases hp : parent = some p
  · subst hp
    rw [childrenIn_detach_self]
    exact h.filter _
  · rwa [childrenIn_detach_ne hp]

/-- A group that was listed under its old parent alone is listed under its new parent alone. -/
theorem mem_childrenIn_reparent {old new : Option GroupId} {c : GroupId}
    (hold : ∀ p, child ∈ childrenIn children p ↔ old = some p) :
    c ∈ childrenIn (reparent children old new child) p ↔
      c = child ∧ new = some p ∨ c ≠ child ∧ c ∈ childrenIn children p := by
  by_cases hmove : old = new
  · subst hmove
    rw [reparent, if_neg (not_not_intro rfl)]
    by_cases hc : c = child
    · subst hc
      simp [hold p]
    · simp [hc]
  · rw [reparent, if_pos hmove, mem_childrenIn_attach, mem_childrenIn_detach]
    by_cases hc : c = child
    · subst hc
      simp [hold p]
    · simp [hc]

theorem nodup_childrenIn_reparent {old new : Option GroupId} (h : (childrenIn children p).Nodup)
    (hold : ∀ p, child ∈ childrenIn children p ↔ old = some p) :
    (childrenIn (reparent children old new child) p).Nodup := by
  by_cases hmove : old = new
  · rwa [reparent, if_neg (not_not_intro hmove)]
  · rw [reparent, if_pos hmove]
    refine nodup_childrenIn_attach (nodup_childrenIn_detach h) ?_
    intro hmem
    obtain ⟨hmem, hnot⟩ := mem_childrenIn_detach.1 hmem
    exact hnot ⟨(hold p).1 hmem, rfl⟩

theorem childrenIn_reparent_ne {old new : Option GroupId} (hold : old ≠ some p)
    (hnew : new ≠ some p) :
    childrenIn (reparent children old new child) p = childrenIn children p := by
  unfold reparent
  split
  · rw [childrenIn_attach_ne hnew, childrenIn_detach_ne hold]
  · rfl

def Listing (children : Dict GroupId (List GroupId)) : Prop := ∀ p, children.get? p ≠ some []

theorem listing_empty : Listing .empty := by
  intro p h
  cases h

theorem Listing.attach (h : Listing children) : Listing (attach children parent child) := by
  cases parent with
  | none => exact h
  | some p =>
    intro q hq
    rcases Dict.get?_insert_eq_some_iff.1 hq with ⟨_, he⟩ | ⟨_, hq⟩
    · exact List.append_ne_nil_of_right_ne_nil _ (List.cons_ne_nil _ _) he
    · exact h q hq

/-- A list of children is dropped with its last entry. -/
theorem Listing.detach (h : Listing children) : Listing (detach children parent child) := by
  cases parent with
  | none => exact h
  | some p =>
    cases hp : children.get? p with
    | none => rwa [detach_of_get?_eq_none hp]
    | some siblings =>
      rw [detach_of_get?_eq_some hp]
      intro q hq
      split at hq
      · exact h q (Dict.get?_erase_eq_some_iff.1 hq).2
      · rename_i hleft
        rcases Dict.get?_insert_eq_some_iff.1 hq with ⟨_, hnil⟩ | ⟨_, hq⟩
        · exact hleft (List.isEmpty_iff.2 hnil)
        · exact h q hq

theorem Listing.reparent {old new : Option GroupId} (h : Listing children) :
    Listing (reparent children old new child) := by
  unfold GroupStore.reparent
  split
  · exact h.detach.attach
  · exact h

end GroupStore
end AccessControl
