import AccessControl.Decision
import AccessControl.Proofs.GroupStore.Parents
import AccessControl.Proofs.PolicyStore.Retrieval
import AccessControl.Proofs.Program.Runs

/-! # Inherited groups

The groups whose rights a subject shares are listed by going up from one group after another and
leaving out what was met before. The list is the one that puts all groups in a row first and keeps
each at its first place.
-/
namespace AccessControl

structure Stores.Sound (s : Stores) : Prop where
  groups : s.groups.Sound
  policies : s.policies.Valid

theorem Stores.Sound.after {s : Stores} (h : s.Sound) (c : StoreCall) : (s.after c).Sound := by
  rcases s.after_eq_or_serve c with he | ⟨_, hserve⟩
  · rwa [he]
  · rcases Stores.serve_cases hserve with he | ⟨_, hchange, he⟩ | ⟨_, hchange, he⟩ | ⟨_, he⟩
    · rwa [he]
    · rw [he]
      exact ⟨h.groups.change hchange, h.policies⟩
    · rw [he]
      exact ⟨h.groups, h.policies.change hchange⟩
    · rw [he]
      exact ⟨h.groups, h.policies⟩

theorem Stores.sound_afterAll (calls : List StoreCall) : (Stores.empty.afterAll calls).Sound :=
  ⟨GroupStore.sound_afterAll calls, PolicyStore.valid_afterAll calls⟩

namespace GroupStore

variable {s : GroupStore} {subject : Principal} {g : GroupId} {member : String}

/-- The groups whose rights a subject shares: those above a group; for everybody else those it is
assigned to and then those above each of them, every group at its first place. -/
def inheritedBy (s : GroupStore) (subject : Principal) : List GroupId :=
  match subject.kind with
  | .group => s.above subject.id
  | .user | .thing =>
    (s.assignedTo subject.id ++ (s.assignedTo subject.id).flatMap s.above).eraseDups

def Inherits (s : GroupStore) (subject : Principal) (g : GroupId) : Prop :=
  match subject.kind with
  | .group => s.IsAbove g subject.id
  | .user | .thing => ∃ seed, subject.id ∈ s.membersOf seed ∧ (g = seed ∨ s.IsAbove g seed)

/-- The list of groups whose rights are shared has the groups that are inherited from, and no
others. -/
theorem Sound.mem_inheritedBy_iff (h : Sound s) :
    g ∈ s.inheritedBy subject ↔ s.Inherits subject g := by
  have hseeds :
      g ∈ (s.assignedTo subject.id ++ (s.assignedTo subject.id).flatMap s.above).eraseDups ↔
      ∃ seed, subject.id ∈ s.membersOf seed ∧ (g = seed ∨ s.IsAbove g seed) := by
    simp only [List.mem_eraseDups, List.mem_append, List.mem_flatMap, h.mem_assignedTo_iff,
      h.forest.mem_above_iff]
    constructor
    · rintro (hg | ⟨seed, hseed, hg⟩)
      · exact ⟨g, hg, Or.inl rfl⟩
      · exact ⟨seed, hseed, Or.inr hg⟩
    · rintro ⟨seed, hseed, rfl | hg⟩
      · exact Or.inl hseed
      · exact Or.inr ⟨seed, hseed, hg⟩
  unfold inheritedBy Inherits
  cases subject.kind with
  | group => exact h.forest.mem_above_iff
  | user => exact hseeds
  | thing => exact hseeds

/-- The groups of a subject depend on its memberships, unless it is a group, and on the parents of
those groups. -/
theorem Sound.inheritedBy_congr {s' : GroupStore} (h : Sound s) (h' : Sound s')
    (hmembers : subject.kind ≠ .group → ∀ g, subject.id ∈ s'.membersOf g ↔
      subject.id ∈ s.membersOf g)
    (hparents : ∀ p, subject = Group.principal p ∨ s.Inherits subject p →
      s'.parentOf p = s.parentOf p) :
    s'.inheritedBy subject = s.inheritedBy subject := by
  obtain ⟨kind, id⟩ := subject
  have hseeds : (∀ g, id ∈ s'.membersOf g ↔ id ∈ s.membersOf g) →
      (∀ p, (∃ seed, id ∈ s.membersOf seed ∧ (p = seed ∨ s.IsAbove p seed)) →
        s'.parentOf p = s.parentOf p) →
      (s'.assignedTo id ++ (s'.assignedTo id).flatMap s'.above).eraseDups =
        (s.assignedTo id ++ (s.assignedTo id).flatMap s.above).eraseDups := by
    intro hsame hparents
    have habove : (s.assignedTo id).map s'.above = (s.assignedTo id).map s.above := by
      refine List.map_congr_left fun seed hseed => ?_
      rw [h.mem_assignedTo_iff] at hseed
      refine h.forest.above_congr h'.forest (hparents seed ⟨seed, hseed, .inl rfl⟩) fun p hp => ?_
      exact hparents p ⟨seed, hseed, .inr (h.forest.mem_above_iff.1 hp)⟩
    rw [h.assignedTo_congr h'.toEnrolled hsame, List.flatMap_def, List.flatMap_def, habove]
  cases kind with
  | group =>
    refine h.forest.above_congr h'.forest (hparents id (.inl rfl)) fun p hp => ?_
    exact hparents p (.inr (h.forest.mem_above_iff.1 hp))
  | user => exact hseeds (hmembers nofun) fun p hp => hparents p (.inr hp)
  | thing => exact hseeds (hmembers nofun) fun p hp => hparents p (.inr hp)

/-- Nobody inherits from a group that has neither children nor members. -/
theorem Bare.not_inherits (h : s.Bare g) (subject : Principal) : ¬s.Inherits subject g := by
  have hseeds : ¬∃ seed, subject.id ∈ s.membersOf seed ∧ (g = seed ∨ s.IsAbove g seed) := by
    rintro ⟨seed, hseed, rfl | habove⟩
    · exact h.memberless _ hseed
    · exact h.not_isAbove seed habove
  unfold Inherits
  cases subject.kind with
  | group => exact h.not_isAbove subject.id
  | user => exact hseeds
  | thing => exact hseeds

end GroupStore

namespace AccessRequest

variable {s : Stores}

theorem addNew_append (found a b : List GroupId) :
    addNew found (a ++ b) = addNew (addNew found a) b :=
  List.foldl_append

theorem addNew_cons (found : List GroupId) (g : GroupId) (rest : List GroupId) :
    addNew found (g :: rest) = addNew (if g ∈ found then found else found ++ [g]) rest := rfl

/-- Adding what is new keeps what was found, and the new elements follow in order, each once. -/
theorem addNew_eq_append (found more : List GroupId) :
    addNew found more = found ++ (more.removeAll found).eraseDups := by
  induction more generalizing found with
  | nil => simp [addNew]
  | cons g rest ih =>
    rw [addNew_cons, ih]
    by_cases hg : g ∈ found
    · rw [if_pos hg]
      simp [List.cons_removeAll, hg]
    · rw [if_neg hg]
      have hrest :
          rest.removeAll (found ++ [g]) = (rest.removeAll found).filter fun x => !x == g := by
        simp only [List.removeAll, List.filter_filter]
        apply List.filter_congr
        intro x _
        by_cases hx : x = g <;> simp [hx]
      rw [hrest]
      simp [List.cons_removeAll, hg, List.eraseDups_cons]

theorem addNew_nil (more : List GroupId) : addNew [] more = more.eraseDups := by
  rw [addNew_eq_append, List.removeAll_nil, List.nil_append]

theorem addNew_of_nodup {found more : List GroupId} (h : (found ++ more).Nodup) :
    addNew found more = found ++ more := by
  induction more generalizing found with
  | nil => rw [List.append_nil]; rfl
  | cons g rest ih =>
    have hg : g ∉ found := fun hg => (List.nodup_append.1 h).2.2 g hg g (List.mem_cons_self ..) rfl
    rw [addNew_cons, if_neg hg, ih (by simpa using h)]
    simp

theorem reply_memberships (h : s.Sound) (member : String) :
    s.reply (.memberships member) = .ok (s.groups.assignedTo member) := by
  obtain ⟨gs, hgs, hmap⟩ := h.groups.retrieveMemberships_eq member
  rw [Stores.reply, Stores.serve, hgs, ← hmap]
  rfl

theorem reply_ancestors_of_stored (h : s.Sound) {g : GroupId}
    (hg : s.groups.groups.contains g = true) :
    s.reply (.ancestors g) = .ok (s.groups.above g) := by
  obtain ⟨gs, hgs, hmap⟩ := h.groups.retrieveAncestors_eq hg
  rw [Stores.reply, Stores.serve, hgs, ← hmap]
  rfl

theorem reply_ancestors_of_missing {g : GroupId} (hg : s.groups.groups.contains g = false) :
    s.reply (.ancestors g) = .error (.notFound s!"group {g}") := by
  rw [Stores.reply, Stores.serve, GroupStore.retrieveAncestors_eq_notFound hg]
  rfl

theorem answer_climb (h : s.Sound) (found seeds : List GroupId) :
    (climb found seeds).answer s.reply = .ok (addNew found (seeds.flatMap s.groups.above)) := by
  induction seeds generalizing found with
  | nil => rfl
  | cons g seeds ih =>
    rw [climb, Program.answer, List.flatMap_cons, addNew_append]
    cases hg : s.groups.groups.contains g with
    | true =>
      rw [reply_ancestors_of_stored h hg]
      exact ih _
    | false =>
      rw [reply_ancestors_of_missing hg, h.groups.forest.above_of_missing hg]
      exact ih _

/-- The search for groups finds those whose rights the subject shares. For a group nothing has to be
dropped, since nothing above it repeats and it is not above itself. -/
theorem answer_inheritedGroups (h : s.Sound) (subject : Principal) :
    (inheritedGroups subject).answer s.reply = .ok (s.groups.inheritedBy subject) := by
  unfold inheritedGroups GroupStore.inheritedBy
  cases subject.kind with
  | group =>
    have hnodup : ([subject.id] ++ s.groups.above subject.id).Nodup :=
      List.nodup_cons.2 ⟨h.groups.forest.not_mem_above _, h.groups.forest.above_nodup _⟩
    simp only [Program.answer_bind, answer_climb h, List.flatMap_cons, List.flatMap_nil,
      List.append_nil, addNew_of_nodup hnodup]
    rfl
  | user | thing =>
    simp only [Program.answer, reply_memberships h, answer_climb h]
    rw [← addNew_append, addNew_nil]

end AccessRequest
end AccessControl
