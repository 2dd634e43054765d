import AccessControl.Proofs.Decision.Inheritance
import AccessControl.Proofs.PolicyStore.Changes
import AccessControl.Proofs.Seed.InTurn

/-! # What a seed puts into stores

A group is taken up when its identifier and its name are new and its parent is there, a membership
when its group is, and a policy when nobody has its right yet. Stores that hold given records hold
one more after each of these steps.
-/
namespace AccessControl

namespace ObjectRef

variable {o o' : ObjectRef} {s : String} {cs a b : List Char}

/-- A text is a type, a colon and an identifier, and no colon stands in the type. -/
structure WrittenAs (o : ObjectRef) (s : String) : Prop where
  objectType : o.objectType ≠ ""
  objectId : o.objectId ≠ ""
  colon : ':' ∉ o.objectType.toList
  text : s = o.objectType ++ ":" ++ o.objectId

/-- The first colon is the one with no other before it. -/
theorem splitColon_eq_some_iff : splitColon cs = some (a, b) ↔ ':' ∉ a ∧ cs = a ++ ':' :: b := by
  induction cs generalizing a with
  | nil => simp [splitColon]
  | cons c rest ih =>
    by_cases hc : c = ':'
    · subst hc
      cases a with
      | nil => simp [splitColon]
      | cons d a =>
        simp only [splitColon, Option.some.injEq, Prod.mk.injEq, reduceCtorEq, false_and,
          List.mem_cons, not_or, List.cons_append, List.cons.injEq, false_iff]
        rintro ⟨⟨hne, -⟩, heq, -⟩
        exact hne heq
    · rw [splitColon]
      · cases a with
        | nil => simp [hc]
        | cons d a =>
          simp only [Option.map_eq_some_iff, Prod.exists, Prod.mk.injEq, List.cons.injEq,
            List.mem_cons, not_or, List.cons_append]
          constructor
          · rintro ⟨a', b', hsplit, ⟨rfl, rfl⟩, rfl⟩
            obtain ⟨ha, hrest⟩ := ih.1 hsplit
            exact ⟨⟨Ne.symm hc, ha⟩, rfl, hrest⟩
          · rintro ⟨⟨-, ha⟩, rfl, hrest⟩
            exact ⟨a, b, ih.2 ⟨ha, hrest⟩, ⟨rfl, rfl⟩, rfl⟩
      · exact hc

/-- A text is read as an object exactly when the object is written so. -/
theorem parse_eq_ok_iff : parse s = .ok o ↔ o.WrittenAs s := by
  rw [parse]
  constructor
  · intro h
    split at h
    · rename_i c a d b hsplit
      cases h
      obtain ⟨hcolon, hs⟩ := splitColon_eq_some_iff.1 hsplit
      refine ⟨by simp, by simp, by simpa using hcolon, ?_⟩
      rw [← String.toList_inj, hs]
      simp
    · cases h
  · rintro ⟨htype, hid, hcolon, htext⟩
    obtain ⟨type, id⟩ := o
    have hsplit : splitColon s.toList = some (type.toList, id.toList) := by
      rw [splitColon_eq_some_iff, htext]
      exact ⟨hcolon, by simp⟩
    rw [hsplit]
    cases htype' : type.toList with
    | nil => exact absurd (String.toList_eq_nil_iff.1 htype') htype
    | cons c a =>
      cases hid' : id.toList with
      | nil => exact absurd (String.toList_eq_nil_iff.1 hid') hid
      | cons d b =>
        dsimp only
        rw [← htype', ← hid', String.ofList_toList, String.ofList_toList]

end ObjectRef

structure Stores.Holds (st : Stores) (gs : List Group) (ms : List SeedMembership)
    (ps : List Policy) : Prop where
  sound : st.Sound
  groups : ∀ id g, st.groups.groups.get? id = some g ↔ g ∈ gs ∧ g.id = id
  members : ∀ member id, member ∈ st.groups.membersOf id ↔ ⟨member, id⟩ ∈ ms
  policies : ∀ id p, st.policies.policies.get? id = some p ↔ p ∈ ps ∧ p.id = id

structure Group.Fits (g : Group) (gs : List Group) : Prop where
  id : g.id ≠ "" ∧ ∀ k ∈ gs, k.id ≠ g.id
  name : Text.isBlank g.name = false ∧ ∀ k ∈ gs, k.name ≠ g.name
  parent : ∀ p, g.parent = some p → p ≠ g.id ∧ ∃ k ∈ gs, k.id = p

structure Policy.Fits (p : Policy) (ps : List Policy) : Prop where
  filled : ∀ f ∈ p.mandatory, f.2 ≠ ""
  id : ∀ q ∈ ps, q.id ≠ p.id
  right : ∀ q ∈ ps, q.right ≠ p.right

theorem Policy.validate_eq_ok_iff {p : Policy} :
    p.validate = .ok () ↔ ∀ f ∈ p.mandatory, f.2 ≠ "" := by
  rw [validate]
  cases hfind : p.mandatory.find? fun f => f.2.isEmpty with
  | none =>
    refine ⟨fun _ f hf hempty => ?_, fun _ => rfl⟩
    exact List.find?_eq_none.1 hfind f hf (String.isEmpty_iff.2 hempty)
  | some f =>
    refine ⟨nofun, fun h => ?_⟩
    have hempty := List.find?_some hfind
    exact absurd (String.isEmpty_iff.1 hempty) (h f (List.mem_of_find?_eq_some hfind))

theorem Policy.filled_iff {p : Policy} :
    (∀ f ∈ p.mandatory, f.2 ≠ "") ↔ p.id ≠ "" ∧ p.holder.id ≠ "" ∧
    p.object.objectType ≠ "" ∧ p.object.objectId ≠ "" ∧ p.action ≠ "" := by
  simp [mandatory]

namespace Stores

variable {st st' : Stores} {gs : List Group} {ms : List SeedMembership} {ps : List Policy}
  {g : Group} {p : Policy} {member id : String}

theorem holds_empty : empty.Holds [] [] [] where
  sound := sound_afterAll []
  groups _ _ := ⟨nofun, fun h => absurd h.1 List.not_mem_nil⟩
  members _ _ := ⟨nofun, fun h => absurd h List.not_mem_nil⟩
  policies _ _ := ⟨nofun, fun h => absurd h.1 List.not_mem_nil⟩

/-- A call whose answer is known beforehand leaves what its change of a store makes of the
stores. -/
theorem next_eq_ok_iff {α : Type} {c : StoreCall} {change : Result α} {reply : c.Reply}
    {put : α → Stores} (h : st.serve c = change >>= fun a => .ok (reply, put a)) :
    st.next c = .ok st' ↔ ∃ a, change = .ok a ∧ st' = put a := by
  rw [next, h]
  cases change with
  | error e =>
    constructor
    · rintro ⟨⟩
    · rintro ⟨_, ⟨⟩, _⟩
  | ok a =>
    constructor
    · rintro ⟨⟩
      exact ⟨a, rfl, rfl⟩
    · rintro ⟨_, ⟨⟩, rfl⟩
      rfl

theorem next_saveGroup : st.next (.saveGroup g) = .ok st' ↔
    ∃ groups, st.groups.save g = .ok groups ∧ st' = { st with groups := groups } :=
  next_eq_ok_iff rfl

theorem next_assign : st.next (.assign member id) = .ok st' ↔
    ∃ groups, st.groups.assign member id = .ok groups ∧ st' = { st with groups := groups } :=
  next_eq_ok_iff rfl

theorem next_savePolicy : st.next (.savePolicy p) = .ok st' ↔
    ∃ policies, st.policies.save p = .ok policies ∧ st' = { st with policies := policies } :=
  next_eq_ok_iff rfl

namespace Holds

theorem contains_group_iff (h : st.Holds gs ms ps) :
    st.groups.groups.contains id = true ↔ ∃ g ∈ gs, g.id = id := by
  simp only [Dict.contains_iff, h.groups]

theorem contains_name_iff (h : st.Holds gs ms ps) {name : String} :
    st.groups.byName.contains name = true ↔ ∃ g ∈ gs, g.name = name := by
  simp only [Dict.contains_iff, h.sound.groups.byName_iff, h.groups]
  constructor
  · rintro ⟨id, g, ⟨hg, -⟩, hname⟩
    exact ⟨g, hg, hname⟩
  · rintro ⟨g, hg, hname⟩
    exact ⟨g.id, g, ⟨hg, rfl⟩, hname⟩

theorem contains_policy_iff (h : st.Holds gs ms ps) :
    st.policies.policies.contains id = true ↔ ∃ p ∈ ps, p.id = id := by
  simp only [Dict.contains_iff, h.policies]

theorem contains_right_iff (h : st.Holds gs ms ps) {r : Right} :
    st.policies.byRight.contains r = true ↔ ∃ p ∈ ps, p.right = r := by
  simp only [Dict.contains_iff, h.sound.policies.byRight_iff, h.policies]
  constructor
  · rintro ⟨id, p, ⟨hp, -⟩, hright⟩
    exact ⟨p, hp, hright⟩
  · rintro ⟨p, hp, hright⟩
    exact ⟨p.id, p, ⟨hp, rfl⟩, hright⟩

/-- A group can be stored exactly when it fits in with those that are. -/
theorem exists_saveGroup (h : st.Holds gs ms ps) :
    (∃ st', st.next (.saveGroup g) = .ok st') ↔ g.Fits gs := by
  simp only [next_saveGroup, GroupStore.save_eq_ok_iff, Group.validate_eq_ok_iff, Bool.eq_false_iff,
    ne_eq, h.contains_group_iff, h.contains_name_iff]
  constructor
  · rintro ⟨_, _, ⟨⟨hid, hname, hown⟩, hnewId, hnewName, hparent, -⟩, -⟩
    refine ⟨⟨hid, fun k hk he => hnewId ⟨k, hk, he⟩⟩,
      ⟨by simpa using hname, fun k hk he => hnewName ⟨k, hk, he⟩⟩, ?_⟩
    intro p hp
    exact ⟨fun he => hown (by rw [hp, he]), hparent p hp⟩
  · intro hfits
    refine ⟨_, _, ⟨⟨hfits.id.1, by simpa using hfits.name.1, ?_⟩, ?_, ?_, ?_, rfl⟩, rfl⟩
    · exact fun hp => (hfits.parent _ hp).1 rfl
    · exact fun ⟨k, hk, he⟩ => hfits.id.2 k hk he
    · exact fun ⟨k, hk, he⟩ => hfits.name.2 k hk he
    · exact fun p hp => (hfits.parent p hp).2

/-- Stores that hold some groups hold one more after it was saved. -/
theorem saveGroup (h : st.Holds gs ms ps) (hnext : st.next (.saveGroup g) = .ok st') :
    st'.Holds (gs ++ [g]) ms ps := by
  have hsound := h.sound.after (.saveGroup g)
  rw [after_of_next hnext] at hsound
  obtain ⟨groups, hsave, rfl⟩ := next_saveGroup.1 hnext
  obtain ⟨-, hid, -, -, hgroups⟩ := GroupStore.save_eq_ok_iff.1 hsave
  have hnew : ∀ k ∈ gs, k.id ≠ g.id := by
    intro k hk he
    rw [h.contains_group_iff.2 ⟨k, hk, he⟩] at hid
    cases hid
  refine ⟨hsound, ?_, ?_, h.policies⟩
  · intro id k
    rw [hgroups, Dict.get?_insert_eq_some_iff, h.groups, List.mem_append, List.mem_singleton]
    constructor
    · rintro (⟨rfl, rfl⟩ | ⟨-, hk, rfl⟩)
      · exact ⟨.inr rfl, rfl⟩
      · exact ⟨.inl hk, rfl⟩
    · rintro ⟨hk | rfl, rfl⟩
      · exact .inr ⟨hnew k hk, hk, rfl⟩
      · exact .inl ⟨rfl, rfl⟩
  · intro member id
    rw [GroupStore.membersOf_save hsave, h.members]

theorem exists_assign (h : st.Holds gs ms ps) :
    (∃ st', st.next (.assign member id) = .ok st') ↔ member ≠ "" ∧ ∃ g ∈ gs, g.id = id := by
  rw [← h.contains_group_iff]
  simp only [next_assign, GroupStore.assign_eq_ok_iff]
  constructor
  · rintro ⟨_, _, ⟨hmember, hid, -⟩, -⟩
    exact ⟨hmember, hid⟩
  · rintro ⟨hmember, hid⟩
    exact ⟨_, _, ⟨hmember, hid, rfl⟩, rfl⟩

theorem assign (h : st.Holds gs ms ps) (hnext : st.next (.assign member id) = .ok st') :
    st'.Holds gs (ms ++ [⟨member, id⟩]) ps := by
  have hsound := h.sound.after (.assign member id)
  rw [after_of_next hnext] at hsound
  obtain ⟨groups, hassign, rfl⟩ := next_assign.1 hnext
  obtain ⟨-, -, hgroups⟩ := GroupStore.assign_eq_ok_iff.1 hassign
  refine ⟨hsound, ?_, ?_, h.policies⟩
  · intro id k
    rw [hgroups]
    exact h.groups id k
  · intro u j
    rw [GroupStore.mem_membersOf_assign hassign, h.members, List.mem_append, List.mem_singleton,
      SeedMembership.mk.injEq, or_comm, and_comm (a := j = id)]

theorem exists_savePolicy (h : st.Holds gs ms ps) :
    (∃ st', st.next (.savePolicy p) = .ok st') ↔ p.Fits ps := by
  simp only [next_savePolicy, PolicyStore.save_eq_ok_iff, Policy.validate_eq_ok_iff,
    Bool.eq_false_iff, ne_eq, h.contains_policy_iff, h.contains_right_iff]
  constructor
  · rintro ⟨_, _, ⟨hfilled, hid, hright, -⟩, -⟩
    exact ⟨hfilled, fun q hq he => hid ⟨q, hq, he⟩, fun q hq he => hright ⟨q, hq, he⟩⟩
  · intro hfits
    refine ⟨_, _, ⟨hfits.filled, ?_, ?_, rfl⟩, rfl⟩
    · exact fun ⟨q, hq, he⟩ => hfits.id q hq he
    · exact fun ⟨q, hq, he⟩ => hfits.right q hq he

theorem savePolicy (h : st.Holds gs ms ps) (hnext : st.next (.savePolicy p) = .ok st') :
    st'.Holds gs ms (ps ++ [p]) := by
  have hsound := h.sound.after (.savePolicy p)
  rw [after_of_next hnext] at hsound
  obtain ⟨policies, hsave, rfl⟩ := next_savePolicy.1 hnext
  refine ⟨hsound, h.groups, h.members, ?_⟩
  intro id q
  rw [PolicyStore.get?_policies_save hsave, h.policies, List.mem_append, List.mem_singleton]
  constructor
  · rintro (⟨rfl, rfl⟩ | ⟨hq, rfl⟩)
    · exact ⟨.inr rfl, rfl⟩
    · exact ⟨.inl hq, rfl⟩
  · rintro ⟨hq | rfl, rfl⟩
    · exact .inr ⟨hq, rfl⟩
    · exact .inl ⟨rfl, rfl⟩

end Holds
end Stores

end AccessControl
