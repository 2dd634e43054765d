import AccessControl.Proofs.Stores.Refusals
import AccessControl.Proofs.GroupStore.Descent

/-! # No call finds the hierarchy corrupt

The stored groups form a forest after every run, so the guards of both walks are never met and every
group that an index names is found. Whatever a call is asked, it does not answer that the hierarchy
is corrupt.
-/
namespace AccessControl

def AuthError.blamesHierarchy : AuthError → Bool
  | corruptHierarchy .. => true
  | _ => false

def Result.Coherent {α : Type} (r : Result α) : Prop :=
  r.FailsOnlyWith fun e => e.blamesHierarchy = false

namespace GroupStore
open Result (Coherent)

variable {s : GroupStore} {g : Group} {id : GroupId}

theorem not_blamesHierarchy_of_blamesCaller (e : AuthError) (h : e.blamesCaller = true) :
    e.blamesHierarchy = false := by
  cases e with
  | corruptHierarchy _ _ => cases h
  | _ => rfl

theorem coherent_of_missing {α : Type} {f : Group → Result α} (hid : s.groups.contains id = false) :
    Coherent (s.get id >>= f) := by
  rw [Dict.contains_eq_false_iff] at hid
  simp only [get, hid]
  exact .error rfl

theorem Sound.coherent_ancestors (h : Sound s) (id : GroupId) : Coherent (s.ancestors id) := by
  cases hid : s.groups.contains id with
  | false => exact coherent_of_missing hid
  | true =>
    obtain ⟨g, hg⟩ := Dict.contains_iff.1 hid
    obtain ⟨line, hline⟩ := h.forest id g hg
    rw [ancestors_eq_of_line hg hline]
    exact .ok _

theorem Valid.coherent_retrieveChildren (h : Valid s) (id : GroupId) :
    Coherent (s.retrieveChildren id) := by
  cases hid : s.groups.contains id with
  | false => exact coherent_of_missing hid
  | true =>
    obtain ⟨gs, hgs, _⟩ := h.retrieveChildren_eq hid
    rw [hgs]
    exact .ok _

theorem Sound.coherent_retrieveAncestors (h : Sound s) (id : GroupId) :
    Coherent (s.retrieveAncestors id) := by
  cases hid : s.groups.contains id with
  | false =>
    rw [retrieveAncestors_eq_notFound hid]
    exact .error rfl
  | true =>
    obtain ⟨gs, hgs, _⟩ := h.retrieveAncestors_eq hid
    rw [hgs]
    exact .ok _

theorem Sound.coherent_retrieveDescendants (h : Sound s) (id : GroupId) :
    Coherent (s.retrieveDescendants id) := by
  cases hid : s.groups.contains id with
  | false =>
    rw [Dict.contains_eq_false_iff] at hid
    simp only [retrieveDescendants, descendants, get, hid]
    exact .error rfl
  | true =>
    obtain ⟨gs, hgs, _⟩ := h.retrieveDescendants_eq hid
    rw [hgs]
    exact .ok _

theorem Valid.coherent_retrieveMemberships (h : Valid s) (member : String) :
    Coherent (s.retrieveMemberships member) := by
  obtain ⟨gs, hgs, _⟩ := h.retrieveMemberships_eq member
  rw [hgs]
  exact .ok _

theorem Sound.walks_coherent (h : Sound s) :
    s.WalksFailOnlyWith fun e => e.blamesHierarchy = false :=
  ⟨h.coherent_ancestors, h.coherent_retrieveAncestors, h.coherent_retrieveDescendants,
    h.coherent_retrieveChildren, h.coherent_retrieveMemberships⟩

end GroupStore

namespace Stores
open Result (Coherent)

variable {s : Stores}

theorem coherent_reply {c : StoreCall} (h : Coherent (s.serve c)) : Coherent (s.reply c) := h.map _

/-- Only the groups can be found corrupt, and calls on sound groups do not find them so. -/
theorem coherent_serve (h : s.groups.Sound) (c : StoreCall) : Coherent (s.serve c) :=
  failsOnlyWith_serve GroupStore.not_blamesHierarchy_of_blamesCaller h.walks_coherent c

end Stores

/-- After every run the groups form a forest: from every stored group the way to a root is shorter
than the number of stored groups. So no call, whatever its arguments, finds the hierarchy corrupt;
what an index names is found; and the walks from a stored group list exactly the groups above it and
those below it. -/
theorem GroupStore.forest_afterAll (calls : List StoreCall) :
    let stores := Stores.empty.afterAll calls
    let s := stores.groups
    (∀ id g, s.get id = .ok g → ∃ line, Line s g.parent line ∧ line.length < s.groups.size) ∧
    (∀ c start reason, stores.reply c ≠ .error (.corruptHierarchy start reason)) ∧
    (∀ member, ∃ gs, s.retrieveMemberships member = .ok gs ∧ gs.map (·.id) = s.groupsOf member) ∧
    ∀ id g, s.get id = .ok g →
      (∃ gs, s.retrieveChildren id = .ok gs ∧ gs.map (·.id) = s.childrenOf id) ∧
      (∃ gs, s.retrieveAncestors id = .ok gs ∧ ∀ p, p ∈ gs.map (·.id) ↔ s.IsAbove p id) ∧
      ∃ gs, s.retrieveDescendants id = .ok gs ∧ ∀ c, c ∈ gs.map (·.id) ↔ s.IsAbove id c := by
  intro stores s
  have h : s.Sound := sound_afterAll calls
  refine ⟨?_, ?_, ?_, ?_⟩
  · intro id g hg
    rw [get_eq_ok_iff] at hg
    obtain ⟨line, hline⟩ := h.forest id g hg
    exact ⟨line, hline, length_line_lt hg hline⟩
  · intro c start reason he
    have hblame := Stores.coherent_reply (Stores.coherent_serve h c) _ he
    cases hblame
  · intro member
    rw [← h.assignedTo_eq]
    exact h.retrieveMemberships_eq member
  · intro id g hg
    have hid : s.groups.contains id = true := Dict.contains_iff.2 ⟨g, get_eq_ok_iff.1 hg⟩
    obtain ⟨up, hup, habove⟩ := h.retrieveAncestors_eq hid
    obtain ⟨down, hdown, _, hbelow⟩ := h.retrieveDescendants_eq hid
    exact ⟨h.retrieveChildren_eq hid, ⟨up, hup, fun p => habove ▸ h.forest.mem_above_iff⟩, down,
      hdown, hbelow⟩

end AccessControl
