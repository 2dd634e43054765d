import AccessControl.Proofs.GroupStore.Levels
import AccessControl.Proofs.GroupStore.Parents
import AccessControl.Proofs.Stores.History
import AccessControl.Proofs.Text.Octets

/-! # Rolls of members

Who belongs to a group is told by the last word on the two: an assignment or its end, after the
group was saved. A word on one pair of member and group leaves all other pairs as they are, and both
rolls are determined by the pairs, so words can be repeated, exchanged and taken back.
-/
namespace AccessControl

def Stores.withoutRolls (st : Stores) : Stores :=
  { st with groups := { st.groups with members := .empty, memberships := .empty } }

def Ascending (texts : List String) : Prop :=
  texts.Pairwise (fun a b => Text.octetsOf a < Text.octetsOf b) ∧ texts.Nodup

theorem ascending_of_sorted {texts : List String} (h : texts.Pairwise Dict.Before) :
    Ascending texts := by
  refine ⟨h.imp fun hab => Text.octetsOf_lt (Dict.lt_of_before hab), h.imp fun hab heq => ?_⟩
  rw [heq] at hab
  exact Dict.Before.irrefl _ hab

def StoreCall.regroups : StoreCall → Bool
  | .saveGroup _ | .updateGroup _ _ | .deleteGroup _ => true
  | _ => false

/-- Somebody was assigned to a group in the course of a run, and since then neither struck off nor
the group saved. -/
def LastAssigned (u : String) (id : GroupId) (calls : List StoreCall) : Prop :=
  Stands (· = .assign u id) (fun c => c = .unassign u id ∨ ∃ g, c = .saveGroup g ∧ g.id = id)
    (Stores.empty.successes calls)

namespace GroupStore

variable {s s' : GroupStore} {member : String} {id : GroupId}

structure Word where
  begins : Bool
  member : String
  group : GroupId

def Word.call : Word → StoreCall
  | ⟨true, member, group⟩ => .assign member group
  | ⟨false, member, group⟩ => .unassign member group

def IsMember (s : GroupStore) (member : String) (id : GroupId) : Prop :=
  ∃ members, s.retrieveMembers id = .ok members ∧ member ∈ members

theorem retrieveMembers_eq_ok_iff {members : List String} :
    s.retrieveMembers id = .ok members ↔ s.groups.contains id = true ∧
      members = s.membersOf id := by
  rw [retrieveMembers_eq]
  split <;> simp [*, eq_comm]

theorem Enrolled.isMember_iff (h : Enrolled s) :
    s.IsMember member id ↔ member ∈ s.membersOf id := by
  simp only [IsMember, retrieveMembers_eq_ok_iff]
  constructor
  · rintro ⟨members, ⟨-, rfl⟩, hmember⟩
    exact hmember
  · intro hmember
    exact ⟨_, ⟨h.stored hmember, rfl⟩, hmember⟩

/-- The rolls are determined by the pairs of members and groups. -/
theorem Enrolled.rolls_eq (h : Enrolled s) (h' : Enrolled s')
    (hsame : ∀ member id, member ∈ s'.membersOf id ↔ member ∈ s.membersOf id) :
    s'.members = s.members ∧ s'.memberships = s.memberships := by
  have hgroups : ∀ member id, id ∈ s'.groupsOf member ↔ id ∈ s.groupsOf member := by
    intro member id
    rw [← h.members_iff, ← h'.members_iff, hsame]
  exact ⟨h'.members_filled.ext h.members_filled fun id member => hsame member id,
    h'.memberships_filled.ext h.memberships_filled hgroups⟩

end GroupStore

namespace Stores
open GroupStore

variable {st st' : Stores} {w w' : Word} {u : String} {id : GroupId}

theorem after_assign (st : Stores) (u : String) (id : GroupId) :
    ¬(u ≠ "" ∧ st.groups.groups.contains id = true) ∧ st.after (.assign u id) = st ∨
    ∃ groups, st.groups.assign u id = .ok groups ∧
      st.after (.assign u id) = { st with groups := groups } := by
  cases hs : st.groups.assign u id with
  | error e =>
    have hrefused : ¬(u ≠ "" ∧ st.groups.groups.contains id = true) := by
      rintro ⟨hu, hid⟩
      cases hs.symm.trans (assign_eq_ok_iff.2 ⟨hu, hid, rfl⟩)
    exact .inl ⟨hrefused, by rw [after, serve, hs]; rfl⟩
  | ok groups => exact .inr ⟨groups, rfl, by rw [after, serve, hs]; rfl⟩

theorem after_unassign (st : Stores) (u : String) (id : GroupId) :
    st.groups.groups.contains id = false ∧ st.after (.unassign u id) = st ∨
    ∃ groups, st.groups.unassign u id = .ok groups ∧
      st.after (.unassign u id) = { st with groups := groups } := by
  cases hs : st.groups.unassign u id with
  | error e =>
    have hrefused : ¬st.groups.groups.contains id = true := by
      intro hid
      cases hs.symm.trans (unassign_eq_ok_iff.2 ⟨hid, rfl⟩)
    exact .inl ⟨Bool.eq_false_iff.2 hrefused, by rw [after, serve, hs]; rfl⟩
  | ok groups => exact .inr ⟨groups, rfl, by rw [after, serve, hs]; rfl⟩

theorem groups_eq_of_withoutRolls (h : st'.withoutRolls = st.withoutRolls) :
    st'.groups.groups = st.groups.groups := by
  have hgroups : st'.withoutRolls.groups.groups = st.withoutRolls.groups.groups := by rw [h]
  exact hgroups

/-- The reply to a word does not depend on who is a member of what. -/
theorem reply_word_congr (h : st'.withoutRolls = st.withoutRolls) (w : Word) :
    st'.reply w.call = st.reply w.call := by
  have hget : ∀ id, st'.groups.get id = st.groups.get id := fun id => by
    rw [GroupStore.get, groups_eq_of_withoutRolls h, GroupStore.get]
  obtain ⟨begins, member, group⟩ := w
  cases begins with
  | true =>
    by_cases hempty : member.isEmpty = true <;> cases hgroup : st.groups.get group <;>
      simp [reply, Word.call, serve, assign, hget, hempty, hgroup, bind, Except.bind, pure,
        Except.pure, Except.map]
  | false =>
    cases hgroup : st.groups.get group <;>
      simp [reply, Word.call, serve, unassign, hget, hgroup, bind, Except.bind, pure,
        Except.pure, Except.map]

structure Follows (st : Stores) (w : Word) (st' : Stores) : Prop where
  rest : st'.withoutRolls = st.withoutRolls
  enrolled : Enrolled st'.groups
  others : ∀ u id, (u, id) ≠ (w.member, w.group) →
    (u ∈ st'.groups.membersOf id ↔ u ∈ st.groups.membersOf id)
  own : w.member ∈ st'.groups.membersOf w.group ↔
    w.begins = true ∧ w.member ≠ "" ∧ st.groups.groups.contains w.group = true

/-- Each word on a membership settles its own pair, and touches no other. -/
theorem follows_after (h : Enrolled st.groups) (w : Word) : st.Follows w (st.after w.call) := by
  obtain ⟨begins, member, group⟩ := w
  have hbefore : member ∈ st.groups.membersOf group →
      member ≠ "" ∧ st.groups.groups.contains group = true :=
    fun hmember => ⟨h.nonempty hmember, h.stored hmember⟩
  have hpair : ∀ {u id}, (u, id) ≠ (member, group) → ¬(id = group ∧ u = member) :=
    fun hne heq => hne (by rw [heq.1, heq.2])
  cases begins with
  | true =>
    rcases st.after_assign member group with ⟨hrefused, hafter⟩ | ⟨groups, hs, hafter⟩
    · rw [Word.call, hafter]
      refine ⟨rfl, h, fun _ _ _ => Iff.rfl, iff_of_false ?_ ?_⟩
      · exact fun hmember => hrefused (hbefore hmember)
      · exact fun hsaid => hrefused hsaid.2
    · obtain ⟨hmember, hgroup, hgroups⟩ := assign_eq_ok_iff.1 hs
      rw [Word.call, hafter]
      refine ⟨by rw [hgroups]; rfl, h.assign hs, fun u id hne => ?_,
        iff_of_true ?_ ⟨rfl, hmember, hgroup⟩⟩
      · exact (mem_membersOf_assign hs).trans (or_iff_right (hpair hne))
      · exact (mem_membersOf_assign hs).2 (.inl ⟨rfl, rfl⟩)
  | false =>
    have hends : ¬(false = true ∧ member ≠ "" ∧ st.groups.groups.contains group = true) := by simp
    rcases st.after_unassign member group with ⟨hrefused, hafter⟩ | ⟨groups, hs, hafter⟩
    · rw [Word.call, hafter]
      refine ⟨rfl, h, fun _ _ _ => Iff.rfl, iff_of_false ?_ hends⟩
      intro hmember
      rw [(hbefore hmember).2] at hrefused
      cases hrefused
    · obtain ⟨-, hgroups⟩ := unassign_eq_ok_iff.1 hs
      rw [Word.call, hafter]
      refine ⟨by rw [hgroups]; rfl, h.unassign hs, fun u id hne => ?_, iff_of_false ?_ hends⟩
      · exact (mem_membersOf_unassign hs).trans (and_iff_left (hpair hne))
      · exact fun hmember => ((mem_membersOf_unassign hs).1 hmember).2 ⟨rfl, rfl⟩

theorem eq_of_mem_iff (h : Enrolled st.groups) (h' : Enrolled st'.groups)
    (hrest : st'.withoutRolls = st.withoutRolls)
    (hsame : ∀ u id, u ∈ st'.groups.membersOf id ↔ u ∈ st.groups.membersOf id) : st' = st := by
  obtain ⟨hmembers, hmemberships⟩ := h.rolls_eq h' hsame
  have hrolls : ∀ st : Stores, st = { st.withoutRolls with
      groups := { st.withoutRolls.groups with
        members := st.groups.members
        memberships := st.groups.memberships } } := fun _ => rfl
  rw [hrolls st', hrolls st, hrest, hmembers, hmemberships]

/-- The last word on a pair counts, and not what was said on it before. -/
theorem after_word_after_word (h : Enrolled st.groups)
    (hpair : (w'.member, w'.group) = (w.member, w.group)) :
    (st.after w'.call).after w.call = st.after w.call := by
  have hw' := follows_after h w'
  have hboth := follows_after hw'.enrolled w
  have hw := follows_after h w
  refine eq_of_mem_iff hw.enrolled hboth.enrolled (by rw [hboth.rest, hw'.rest, hw.rest])
    fun u id => ?_
  by_cases hown : (u, id) = (w.member, w.group)
  · obtain ⟨rfl, rfl⟩ := Prod.mk.inj hown
    rw [hboth.own, hw.own, groups_eq_of_withoutRolls hw'.rest]
  · rw [hboth.others u id hown, hw.others u id hown, hw'.others u id (hpair ▸ hown)]

/-- Words on different pairs can be exchanged. -/
theorem after_word_comm (h : Enrolled st.groups)
    (hpair : (w.member, w.group) ≠ (w'.member, w'.group)) :
    (st.after w.call).after w'.call = (st.after w'.call).after w.call := by
  have hw := follows_after h w
  have hw' := follows_after h w'
  have hleft := follows_after hw.enrolled w'
  have hright := follows_after hw'.enrolled w
  have hrest : ((st.after w.call).after w'.call).withoutRolls =
      ((st.after w'.call).after w.call).withoutRolls := by
    rw [hleft.rest, hright.rest, hw.rest, hw'.rest]
  refine eq_of_mem_iff hright.enrolled hleft.enrolled hrest fun u id => ?_
  by_cases hown : (u, id) = (w.member, w.group)
  · obtain ⟨rfl, rfl⟩ := Prod.mk.inj hown
    rw [hleft.others _ _ hpair, hw.own, hright.own, groups_eq_of_withoutRolls hw'.rest]
  by_cases hown' : (u, id) = (w'.member, w'.group)
  · obtain ⟨rfl, rfl⟩ := Prod.mk.inj hown'
    rw [hright.others _ _ hpair.symm, hw'.own, hleft.own, groups_eq_of_withoutRolls hw.rest]
  · rw [hleft.others u id hown', hw.others u id hown, hright.others u id hown,
      hw'.others u id hown']

/-- A word that says what is the case changes nothing. -/
theorem after_word_of_mem_iff (h : Enrolled st.groups)
    (hsaid : w.member ∈ (st.after w.call).groups.membersOf w.group ↔
      w.member ∈ st.groups.membersOf w.group) :
    st.after w.call = st := by
  have hw := follows_after h w
  refine eq_of_mem_iff h hw.enrolled hw.rest fun u id => ?_
  by_cases hown : (u, id) = (w.member, w.group)
  · obtain ⟨rfl, rfl⟩ := Prod.mk.inj hown
    exact hsaid
  · exact hw.others u id hown

/-- A change to the groups themselves does not touch the rolls, so every group keeps its members. -/
theorem membersOf_of_regrouping {c : StoreCall} {reply : c.Reply} (hc : c.regroups = true)
    (hs : st.serve c = .ok (reply, st')) (id : GroupId) :
    st'.groups.membersOf id = st.groups.membersOf id := by
  cases c with
  | saveGroup g =>
    obtain ⟨groups, hsave, he⟩ := Result.bind_eq_ok_iff.1 hs
    cases he
    exact membersOf_save hsave id
  | updateGroup g now =>
    obtain ⟨r, hupdate, he⟩ := Result.bind_eq_ok_iff.1 hs
    cases he
    exact membersOf_update hupdate id
  | deleteGroup j =>
    obtain ⟨groups, hdelete, he⟩ := Result.bind_eq_ok_iff.1 hs
    cases he
    exact membersOf_delete hdelete id
  | _ => cases hc

/-- Groups are saved without members, so only a word of the one kind makes a member, and none
remains where a group is saved or a word of the other kind is said. -/
theorem mem_of_serve {c : StoreCall} {reply : c.Reply} (h : Enrolled st.groups)
    (hs : st.serve c = .ok (reply, st')) :
    u ∈ st'.groups.membersOf id ↔ c = .assign u id ∨
      u ∈ st.groups.membersOf id ∧ ¬(c = .unassign u id ∨ ∃ g, c = .saveGroup g ∧ g.id = id) := by
  cases c with
  | saveGroup g =>
    have hkept := membersOf_of_regrouping rfl hs id
    obtain ⟨groups, hsave, -⟩ := Result.bind_eq_ok_iff.1 hs
    obtain ⟨-, hnew, -⟩ := save_eq_ok_iff.1 hsave
    have hnone : u ∈ st.groups.membersOf id → g.id ≠ id := by
      rintro hmember rfl
      rw [h.stored hmember] at hnew
      cases hnew
    simpa [hkept] using hnone
  | updateGroup g now => simp [membersOf_of_regrouping rfl hs id]
  | deleteGroup j => simp [membersOf_of_regrouping rfl hs id]
  | assign v j =>
    obtain ⟨groups, hassign, he⟩ := Result.bind_eq_ok_iff.1 hs
    cases he
    have hmember := mem_membersOf_assign (u := u) (j := id) hassign
    simpa [eq_comm, and_comm] using hmember
  | unassign v j =>
    obtain ⟨groups, hunassign, he⟩ := Result.bind_eq_ok_iff.1 hs
    cases he
    have hmember := mem_membersOf_unassign (u := u) (j := id) hunassign
    simpa [eq_comm, and_comm] using hmember
  | policies _ _ | removePolicies _ =>
    cases hs
    simp
  | _ =>
    obtain ⟨_, _, he⟩ := Result.bind_eq_ok_iff.1 hs
    cases he
    simp

theorem membersOf_after_regrouping {c : StoreCall} (hc : c.regroups = true) (id : GroupId) :
    (st.after c).groups.membersOf id = st.groups.membersOf id := by
  rcases st.after_eq_or_serve c with hafter | ⟨reply, hserve⟩
  · rw [hafter]
  · exact membersOf_of_regrouping hc hserve id

theorem mem_afterAll_iff (u : String) (id : GroupId) (calls : List StoreCall) :
    u ∈ (empty.afterAll calls).groups.membersOf id ↔ LastAssigned u id calls :=
  stands_successes_iff (P := fun st => u ∈ st.groups.membersOf id) List.not_mem_nil
    (fun calls _ _ _ hs => mem_of_serve (sound_afterAll calls).toEnrolled hs) calls

/-- After every run the members of a stored group are those whose last word on it, since the group
was saved, was an assignment, and the memberships of somebody are the groups among whose members
they are, both in the order of octets. So a word can be repeated, and exchanged with one on another
pair, an assignment of somebody who was no member can be taken back, and changes of groups make and
drop no membership. -/
theorem membership_by_last_word (calls : List StoreCall) :
    let st := empty.afterAll calls
    (∀ id g, st.groups.get id = .ok g → ∃ members, st.groups.retrieveMembers id = .ok members ∧
      Ascending members ∧
      ∀ u : String, u ∈ members ↔ LastAssigned u id calls) ∧
    (∀ u, ∃ gs, st.groups.retrieveMemberships u = .ok gs ∧ Ascending (ids gs) ∧
      ∀ g, g ∈ gs ↔ st.groups.get g.id = .ok g ∧ st.groups.IsMember u g.id) ∧
    (∀ w : Word, (st.after w.call).after w.call = st.after w.call ∧
      (st.after w.call).reply w.call = st.reply w.call) ∧
    (∀ w w' : Word, (w.member, w.group) ≠ (w'.member, w'.group) →
      (st.after w.call).after w'.call = (st.after w'.call).after w.call ∧
      (st.after w.call).reply w'.call = st.reply w'.call) ∧
    (∀ u id, ¬st.groups.IsMember u id → (st.after (.assign u id)).after (.unassign u id) = st) ∧
    ∀ c : StoreCall, c.regroups = true → ∀ u id, (st.after c).groups.IsMember u id ↔
      st.groups.IsMember u id := by
  intro st
  have hsound : Sound st.groups := sound_afterAll calls
  have h : Enrolled st.groups := hsound.toEnrolled
  refine ⟨fun id g hg => ?_, fun u => ?_, fun w => ?_, fun w w' hpair => ?_, fun u id hnot => ?_,
    fun c hc u id => ?_⟩
  · have hid : st.groups.groups.contains id = true := Dict.contains_iff.2 ⟨g, get_eq_ok_iff.1 hg⟩
    refine ⟨_, retrieveMembers_eq_ok_iff.2 ⟨hid, rfl⟩,
      ascending_of_sorted (Dict.elements_sorted _ _), fun u => ?_⟩
    exact mem_afterAll_iff u id calls
  · have hids : ids (st.groups.records (st.groups.groupsOf u)) = st.groups.groupsOf u :=
      hsound.ids_records (h.groupsOf_stored u)
    refine ⟨_, h.retrieveMemberships_eq_records u, ?_, fun g => ?_⟩
    · rw [hids]
      exact ascending_of_sorted (Dict.elements_sorted _ _)
    · rw [hsound.mem_records_iff, get_eq_ok_iff, h.isMember_iff, h.members_iff, and_comm]
  · exact ⟨after_word_after_word h rfl, reply_word_congr (follows_after h w).rest w⟩
  · exact ⟨after_word_comm h hpair, reply_word_congr (follows_after h w).rest w'⟩
  · let join : Word := ⟨true, u, id⟩
    let leave : Word := ⟨false, u, id⟩
    have hlast : (st.after join.call).after leave.call = st.after leave.call :=
      after_word_after_word h rfl
    have hnone : u ∉ (st.after leave.call).groups.membersOf id := by
      rw [(follows_after h leave).own]
      simp [leave]
    rw [h.isMember_iff] at hnot
    exact hlast.trans (after_word_of_mem_iff h (iff_of_false hnone hnot))
  · have hafter : Enrolled (st.after c).groups := by
      have hrun := (sound_afterAll (calls ++ [c])).toEnrolled
      rwa [afterAll_concat] at hrun
    rw [hafter.isMember_iff, h.isMember_iff, membersOf_after_regrouping hc]

end Stores
end AccessControl
