import AccessControl.Proofs.Decision.FirstMatch
import AccessControl.Proofs.Program.Courses
import Mathlib.Data.List.Nodup

/-! # Inherited groups of any store

What the search makes of answers that a store of groups need not give: memberships that repeat,
groups that nobody knows, lines of groups that do not fit together, and failures among them. The
groups are still listed once each and in the order in which they are met, and the policies of none
are read twice.
-/
namespace AccessControl

def StoreCall.holder? : StoreCall → Option Principal
  | .policies holder _ => some holder
  | _ => none

namespace AccessRequest

variable {found more members : List GroupId} {subject holder : Principal} {r : AccessRequest}
  {calls : List StoreCall}

theorem mem_addNew {g : GroupId} : g ∈ addNew found more ↔ g ∈ found ∨ g ∈ more := by
  induction more generalizing found with
  | nil => simp [addNew]
  | cons h rest ih =>
    rw [addNew_cons, ih, List.mem_cons]
    by_cases hh : h ∈ found
    · rw [if_pos hh]
      grind
    · rw [if_neg hh]
      grind

theorem addNew_of_subset (h : more ⊆ found) : addNew found more = found := by
  have hnone : more.removeAll found = [] := List.filter_eq_nil_iff.2 fun g hg => by simp [h hg]
  rw [addNew_eq_append, hnone, List.eraseDups_nil, List.append_nil]

theorem addNew_nodup (h : found.Nodup) (more : List GroupId) : (addNew found more).Nodup := by
  induction more generalizing found with
  | nil => exact h
  | cons g rest ih =>
    rw [addNew_cons]
    by_cases hg : g ∈ found
    · rw [if_pos hg]
      exact ih h
    · rw [if_neg hg]
      exact ih (h.append (List.nodup_singleton g) (List.disjoint_singleton.2 hg))

theorem eraseDups_nodup (more : List GroupId) : more.eraseDups.Nodup :=
  addNew_nil more ▸ addNew_nodup .nil more

theorem eraseDups_concat (members : List GroupId) (g : GroupId) :
    (members ++ [g]).eraseDups =
      if g ∈ members then members.eraseDups else members.eraseDups ++ [g] := by
  rw [← addNew_nil, addNew_append, addNew_nil, addNew_cons]
  simp only [List.mem_eraseDups]
  rfl

theorem findSome?_eraseDups {β : Type} (f : GroupId → Option β) (members : List GroupId) :
    members.eraseDups.findSome? f = members.findSome? f := by
  induction members using List.reverseRecOn with
  | nil => rfl
  | append_singleton members g ih =>
    rw [eraseDups_concat, List.findSome?_append]
    by_cases hg : g ∈ members
    · rw [if_pos hg, ih]
      cases hfound : members.findSome? f with
      | some b => rfl
      | none => simp [List.findSome?_eq_none_iff.1 hfound g hg]
    · rw [if_neg hg, List.findSome?_append, ih]

/-- To climb from a group once more adds nothing: what a repeated group leads to is there already.
-/
theorem addNew_flatMap_eraseDups (found : List GroupId) (line : GroupId → List GroupId)
    (members : List GroupId) :
    addNew found (members.eraseDups.flatMap line) = addNew found (members.flatMap line) := by
  induction members using List.reverseRecOn with
  | nil => rfl
  | append_singleton members g ih =>
    rw [eraseDups_concat, List.flatMap_append, List.flatMap_singleton, addNew_append]
    by_cases hg : g ∈ members
    · rw [if_pos hg, ih, addNew_of_subset fun p hp =>
        mem_addNew.2 (.inr (List.mem_flatMap.2 ⟨g, hg, hp⟩))]
    · rw [if_neg hg, List.flatMap_append, List.flatMap_singleton, addNew_append, ih]

def listed : Result (List GroupId) → List GroupId
  | .ok above => above
  | .error _ => []

/-- The failure that an answer ends the search with. -/
def failure? : Result (List GroupId) → Option AuthError
  | .ok _ | .error (.notFound _) => none
  | .error e => some e

/-- The groups that somebody is assigned to and then those that are listed above them, every group
at its first place; or the first failure on the way. -/
def expansion (lines : GroupId → Result (List GroupId)) (members : List GroupId) :
    Result (List GroupId) :=
  match members.findSome? fun g => failure? (lines g) with
  | some e => .error e
  | none => .ok (members ++ members.flatMap fun g => listed (lines g)).eraseDups

def groupExpansion (g : GroupId) : Result (List GroupId) → Result (List GroupId)
  | .ok above => .ok (above.filter (· ≠ g)).eraseDups
  | .error (.notFound _) => .ok []
  | .error e => .error e

theorem expansion_eraseDups (lines : GroupId → Result (List GroupId)) (members : List GroupId) :
    expansion lines members.eraseDups = expansion lines members := by
  have hnodup : addNew [] members.eraseDups = members.eraseDups :=
    addNew_of_nodup (eraseDups_nodup members)
  rw [expansion, findSome?_eraseDups, ← addNew_nil, addNew_append, hnodup, addNew_flatMap_eraseDups,
    ← addNew_nil, ← addNew_append, addNew_nil, expansion]

/-- Climbing from groups ends with the first failure on the way, or adds what is listed above each
of them. -/
theorem answer_climb_eq (oracle : (c : StoreCall) → Result c.Reply) (found seeds : List GroupId) :
    (climb found seeds).answer oracle =
      match seeds.findSome? fun g => failure? (oracle (.ancestors g)) with
      | some e => .error e
      | none => .ok (addNew found (seeds.flatMap fun g => listed (oracle (.ancestors g)))) := by
  induction seeds generalizing found with
  | nil => rfl
  | cons g seeds ih =>
    rw [climb, Program.answer, List.findSome?_cons, List.flatMap_cons, addNew_append]
    rcases oracle (.ancestors g) with e | above
    · cases e with
      | notFound what => exact ih found
      | _ => rfl
    · exact ih (addNew found above)

theorem inheritedGroups_of_member (h : subject.kind ≠ .group) :
    inheritedGroups subject = .call (.memberships subject.id) fun reply =>
      match reply with
      | .ok seeds => climb (addNew [] seeds) seeds
      | .error e => .done (.error e) := by
  unfold inheritedGroups
  cases hkind : subject.kind with
  | group => exact absurd hkind h
  | user => rfl
  | thing => rfl

theorem answer_inheritedGroups_of_member (oracle : (c : StoreCall) → Result c.Reply)
    (h : subject.kind ≠ .group) :
    (inheritedGroups subject).answer oracle =
      oracle (.memberships subject.id) >>= expansion fun g => oracle (.ancestors g) := by
  rw [inheritedGroups_of_member h, Program.answer]
  rcases oracle (.memberships subject.id) with e | members
  · rfl
  · refine (answer_climb_eq oracle (addNew [] members) members).trans ?_
    rw [← addNew_append, addNew_nil]
    rfl

/-- A group that nobody knows is listed where it is a membership, and ops is listed once. -/
example : expansion (fun g => if g = "ops" then .ok ["staff", "ops"] else .error (.notFound g))
  ["ops", "gone", "ops"] =
    .ok ["ops", "gone", "staff"] := by rfl

/-- For a group there is one question to the store, and its answer decides. -/
theorem answer_inheritedGroups_of_group (oracle : (c : StoreCall) → Result c.Reply)
    (h : subject.kind = .group) :
    (inheritedGroups subject).answer oracle =
      groupExpansion subject.id (oracle (.ancestors subject.id)) := by
  have hclimb : (inheritedGroups subject).answer oracle =
      (climb [subject.id] [subject.id]).answer oracle >>= fun found => .ok (found.drop 1) := by
    simp only [inheritedGroups, h, Program.answer_bind]
    rfl
  rw [hclimb, climb, Program.answer]
  rcases oracle (.ancestors subject.id) with e | above
  · cases e <;> rfl
  · have hothers : above.removeAll [subject.id] = above.filter (· ≠ subject.id) :=
      List.filter_congr fun g _ => by simp
    have hfound :
        addNew [subject.id] above = subject.id :: (above.filter (· ≠ subject.id)).eraseDups := by
      rw [addNew_eq_append, hothers, List.singleton_append]
    exact congrArg (fun found => Except.ok (List.drop 1 found)) hfound

/-- However the store answers, climbing keeps what it has found, in place, and repeats no group. -/
theorem course_climb {seeds gs : List GroupId}
    (h : (climb found seeds).Course calls (some (.ok gs))) (hnodup : found.Nodup) :
    gs.Nodup ∧ found <+: gs := by
  induction seeds generalizing found calls with
  | nil =>
    cases h
    exact ⟨hnodup, List.prefix_rfl⟩
  | cons g seeds ih =>
    rw [climb] at h
    cases h with
    | call reply hrest =>
      rcases reply with e | above
      · cases e with
        | notFound what => exact ih hrest hnodup
        | _ => cases hrest
      · obtain ⟨hgs, hprefix⟩ := ih hrest (addNew_nodup hnodup above)
        refine ⟨hgs, List.IsPrefix.trans ?_ hprefix⟩
        rw [addNew_eq_append]
        exact List.prefix_append _ _

/-- Whatever is answered, no group is listed twice, and a group is not listed among its own. -/
theorem course_inheritedGroups {gs : List GroupId}
    (h : (inheritedGroups subject).Course calls (some (.ok gs))) :
    gs.Nodup ∧ (subject.kind = .group → subject.id ∉ gs) := by
  by_cases hkind : subject.kind = .group
  · simp only [inheritedGroups, hkind] at h
    obtain ⟨_, -, hout⟩ | ⟨found, first, rest, -, hfound, hrest⟩ := h.of_bind
    · exact absurd rfl (hout gs)
    · obtain ⟨hnodup, rest, rfl⟩ := course_climb hfound (List.nodup_singleton subject.id)
      cases hrest
      exact ⟨(List.nodup_cons.1 hnodup).2, fun _ => (List.nodup_cons.1 hnodup).1⟩
  · rw [inheritedGroups_of_member hkind] at h
    cases h with
    | call reply hrest =>
      rcases reply with e | members
      · cases hrest
      · exact ⟨(course_climb hrest (addNew_nodup .nil members)).1, fun h => absurd h hkind⟩

theorem climb_makes (found seeds : List GroupId) :
    (climb found seeds).Makes fun c => c.holder? = none := by
  induction seeds generalizing found with
  | nil => exact .done _
  | cons g seeds ih =>
    refine .call rfl ?_
    intro reply
    rcases reply with e | above
    · cases e with
      | notFound what => exact ih found
      | _ => exact .done _
    · exact ih _

theorem inheritedGroups_makes (subject : Principal) :
    (inheritedGroups subject).Makes fun c => c.holder? = none := by
  unfold inheritedGroups
  cases subject.kind with
  | group => exact (climb_makes _ _).bind fun _ => .done _
  | user | thing =>
    refine .call rfl ?_
    intro reply
    rcases reply with e | members
    · exact .done _
    · exact climb_makes _ _

/-- The policies of a holder are read first, and nothing comes after that unless they were
answered. -/
theorem course_lookFor_bind {α : Type} {f : Option String → Program α} {out : Option (Result α)}
    (h : (r.lookFor holder >>= f).Course calls out) :
    calls = [] ∨ ∃ rest, calls = .policies holder (some r.object) :: rest ∧
      (rest = [] ∨ ∃ id, (f id).Course rest out) := by
  cases h with
  | stop => exact .inl rfl
  | call reply hrest =>
    rcases reply with e | held
    · exact .inr ⟨_, rfl, .inl (Program.Course.nil_of_done hrest).1⟩
    · exact .inr ⟨_, rfl, .inr ⟨_, hrest⟩⟩

/-- The policies that are read are those of the groups in their order, up to where the search ends.
-/
theorem course_searchGroups {gs : List GroupId} {out : Option (Result Decision)}
    (h : (r.searchGroups gs).Course calls out) :
    calls.filterMap StoreCall.holder? <+: gs.map Group.principal := by
  induction gs generalizing calls with
  | nil =>
    rw [(Program.Course.nil_of_done h).1]
    exact List.nil_prefix
  | cons g gs ih =>
    rcases course_lookFor_bind h with rfl | ⟨rest, rfl, hrest⟩
    · exact List.nil_prefix
    · refine (List.prefix_cons_inj (Group.principal g)).2 ?_
      rcases hrest with rfl | ⟨_ | id, hrest⟩
      · exact List.nil_prefix
      · exact ih hrest
      · rw [(Program.Course.nil_of_done hrest).1]
        exact List.nil_prefix

theorem nodup_holders {gs : List GroupId}
    (h : (inheritedGroups subject).Course calls (some (.ok gs))) :
    (subject :: gs.map Group.principal).Nodup := by
  obtain ⟨hnodup, hsubject⟩ := course_inheritedGroups h
  have hinjective : Function.Injective Group.principal :=
    fun _ _ hsame => congrArg Principal.id hsame
  refine List.nodup_cons.2 ⟨?_, hnodup.map hinjective⟩
  intro hmem
  obtain ⟨g, hg, rfl⟩ := List.mem_map.1 hmem
  exact hsubject rfl hg

/-- The policies of the subject are read, and then those of its groups as far as the search goes. -/
theorem nodup_reads {out : Option (Result Decision)} (h : r.decision.Course calls out) :
    (calls.filterMap StoreCall.holder?).Nodup := by
  have halone : [r.subject].Nodup := List.nodup_singleton _
  rcases course_lookFor_bind h with rfl | ⟨rest, rfl, rfl | ⟨_ | id, hrest⟩⟩
  · exact .nil
  · exact halone
  · have hholder : (StoreCall.policies r.subject (some r.object)).holder? = some r.subject := rfl
    rw [List.filterMap_cons_some hholder]
    obtain ⟨_, hstopped, -⟩ | ⟨gs, first, last, rfl, hfirst, hlast⟩ := hrest.of_bind
    · rwa [List.filterMap_eq_nil_iff.2 ((inheritedGroups_makes _).of_course hstopped)]
    · rw [List.filterMap_append, List.filterMap_eq_nil_iff.2
        ((inheritedGroups_makes _).of_course hfirst), List.nil_append]
      have hreads := (List.prefix_cons_inj r.subject).2 (course_searchGroups hlast)
      exact (nodup_holders hfirst).sublist hreads.sublist
  · rw [(Program.Course.nil_of_done hrest).1]
    exact halone

theorem lookFor_makes (r : AccessRequest) (holder : Principal) :
    (r.lookFor holder).Makes fun c => c.holder? ≠ none :=
  Program.Makes.bind (.ask nofun) fun _ => .done _

theorem searchGroups_makes (r : AccessRequest) (gs : List GroupId) :
    (r.searchGroups gs).Makes fun c => c.holder? ≠ none := by
  induction gs with
  | nil => exact .done _
  | cons g gs ih =>
    refine (r.lookFor_makes _).bind ?_
    intro found
    cases found with
    | some id => exact .done _
    | none => exact ih

/-- A decision depends on how policies are answered and on the groups that are found. -/
theorem answer_decision_congr {oracle oracle' : (c : StoreCall) → Result c.Reply}
    (hpolicies : ∀ c, c.holder? ≠ none → oracle' c = oracle c)
    (hgroups : (inheritedGroups r.subject).answer oracle' =
      (inheritedGroups r.subject).answer oracle) :
    r.decision.answer oracle' = r.decision.answer oracle := by
  rw [decision, Program.answer_bind, Program.answer_bind,
    (r.lookFor_makes _).answer_congr hpolicies]
  refine congrArg _ (funext fun found => ?_)
  cases found with
  | some id => rfl
  | none =>
    have hsearch : (fun gs => (r.searchGroups gs).answer oracle') = fun gs =>
        (r.searchGroups gs).answer oracle :=
      funext fun gs => (r.searchGroups_makes gs).answer_congr hpolicies
    have hbind (oracle) := Program.answer_bind (inheritedGroups r.subject) r.searchGroups oracle
    exact (hbind oracle').trans ((congrArg₂ (· >>= ·) hgroups hsearch).trans (hbind oracle).symm)

/-- Repetitions in the list of memberships make no difference. -/
theorem answer_inheritedGroups_congr {oracle oracle' : (c : StoreCall) → Result c.Reply}
    {members' : List GroupId} (hother : ∀ c, c ≠ .memberships subject.id → oracle' c = oracle c)
    (hmembers : oracle (.memberships subject.id) = .ok members)
    (hmembers' : oracle' (.memberships subject.id) = .ok members')
    (hsame : members'.eraseDups = members.eraseDups) :
    (inheritedGroups subject).answer oracle' = (inheritedGroups subject).answer oracle := by
  have hlines (g) : oracle' (.ancestors g) = oracle (.ancestors g) := hother _ nofun
  by_cases hkind : subject.kind = .group
  · rw [answer_inheritedGroups_of_group oracle' hkind,
      answer_inheritedGroups_of_group oracle hkind, hlines]
  · have hexpansion : expansion (fun g => oracle (.ancestors g)) members' =
        expansion (fun g => oracle (.ancestors g)) members := by
      rw [← expansion_eraseDups _ members', hsame, expansion_eraseDups]
    rw [answer_inheritedGroups_of_member oracle' hkind,
      answer_inheritedGroups_of_member oracle hkind, hmembers, hmembers', funext hlines]
    exact hexpansion

/-- Whatever a store answers, a subject that is no group shares the rights of the groups that it is
assigned to and of those listed above them, each at its first place, unless a line of groups fails.
A group shares those of its own line without itself. So no group is found twice, and it is nothing
whether a membership is repeated. And whatever is answered, differently each time if need be, a
decision reads the policies of nobody twice. -/
theorem expansion_of_any_store (oracle : (c : StoreCall) → Result c.Reply) (r : AccessRequest) :
    let lines : GroupId → Result (List GroupId) := fun g => oracle (.ancestors g)
    let found := (inheritedGroups r.subject).answer oracle
    (r.subject.kind ≠ .group → found = oracle (.memberships r.subject.id) >>= expansion lines) ∧
    (r.subject.kind = .group → found = groupExpansion r.subject.id (lines r.subject.id)) ∧
    (∀ gs, found = .ok gs → gs.Nodup ∧ (r.subject.kind = .group → r.subject.id ∉ gs)) ∧
    (∀ (oracle' : (c : StoreCall) → Result c.Reply) (members members' : List GroupId),
      (∀ c, c ≠ .memberships r.subject.id → oracle' c = oracle c) →
      oracle (.memberships r.subject.id) = .ok members →
        oracle' (.memberships r.subject.id) = .ok members' →
      members'.eraseDups = members.eraseDups →
      (inheritedGroups r.subject).answer oracle' = found ∧
        r.decision.answer oracle' = r.decision.answer oracle) ∧
    (∀ calls out, r.decision.Course calls out → (calls.filterMap StoreCall.holder?).Nodup) ∧
    ∀ (e : Engine) (k : Conditions) (ctx : Context) (w : World),
      r.decision.Course ((r.decision.reached k (e.effective ctx w.now) w).map (·.call))
        (e.authorize k ctx r w).1 := by
  intro lines found
  refine ⟨answer_inheritedGroups_of_member oracle, answer_inheritedGroups_of_group oracle, ?_, ?_,
    fun _ _ hcourse => nodup_reads hcourse, fun e k ctx w => Program.course_perform k _ _ w⟩
  · intro gs hgs
    obtain ⟨calls, hcourse⟩ := Program.exists_course_answer oracle (inheritedGroups r.subject)
    have hanswer : (inheritedGroups r.subject).answer oracle = .ok gs := hgs
    rw [hanswer] at hcourse
    exact course_inheritedGroups hcourse
  · intro oracle' members members' hother hmembers hmembers' hsame
    have hgroups := answer_inheritedGroups_congr hother hmembers hmembers' hsame
    refine ⟨hgroups, answer_decision_congr (fun c hc => hother c ?_) hgroups⟩
    rintro rfl
    exact hc rfl

end AccessRequest
end AccessControl
