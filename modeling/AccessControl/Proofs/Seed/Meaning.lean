import AccessControl.CommandLine
import AccessControl.Proofs.Decision.Authorize
import AccessControl.Proofs.Seed.Applying
import AccessControl.Proofs.Settings.Sources

/-! # What a seed means

Decisions from the stores of a seed can be read off its document: who is granted something, who is
listed where, and which group is the parent of which. The order in which the document says so has no
part in it, as long as parents come first.
-/
namespace AccessControl

def Decision.holder? (subject : Principal) (d : Decision) : Option Principal :=
  d.grant?.map (Grant.holder subject)

theorem Decision.isAllowed_eq (subject : Principal) (d : Decision) :
    d.isAllowed = (d.holder? subject).isSome := by
  cases d <;> rfl

/-- Settings that the command gets to see have passed the check. -/
theorem CommandLine.acceptable_of_settings {start : Start} {config : Option String}
    {settings : Settings} (h : CommandLine.settings start config = .ok settings) :
    settings.Acceptable := by
  rw [CommandLine.settings] at h
  cases hload : Settings.load start.environment config with
  | error e =>
    rw [hload] at h
    cases h
  | ok loaded =>
    rw [hload] at h
    cases h
    exact Settings.acceptable_of_ofSources hload

namespace AccessRequest

variable {s s' : Stores} {r : AccessRequest}

theorem holder?_searched_congr (gs : List GroupId)
    (h : ∀ holder, (s'.policies.granting? (r.right holder)).isSome =
      (s.policies.granting? (r.right holder)).isSome) :
    ((gs.findSome? (r.grantOf s'.policies)).elim Decision.deny .allow).holder? r.subject =
      ((gs.findSome? (r.grantOf s.policies)).elim Decision.deny .allow).holder? r.subject := by
  induction gs with
  | nil => rfl
  | cons g rest ih =>
    have hg := h (Group.principal g)
    rw [List.findSome?_cons, List.findSome?_cons, grantOf, grantOf]
    cases hnew : s'.policies.granting? (r.right (Group.principal g)) <;>
      cases hold : s.policies.granting? (r.right (Group.principal g)) <;> rw [hnew, hold] at hg
    · exact ih
    · cases hg
    · cases hg
    · rfl

/-- Which policies give a right does not matter to who it is that allows a request. -/
theorem holder?_firstMatch_congr
    (hinherited : s'.groups.inheritedBy r.subject = s.groups.inheritedBy r.subject)
    (h : ∀ holder, (s'.policies.granting? (r.right holder)).isSome =
      (s.policies.granting? (r.right holder)).isSome) :
    (r.firstMatch s').holder? r.subject = (r.firstMatch s).holder? r.subject := by
  have hsubject := h r.subject
  rw [firstMatch, firstMatch, hinherited]
  cases hnew : s'.policies.granting? (r.right r.subject) <;>
    cases hold : s.policies.granting? (r.right r.subject) <;> rw [hnew, hold] at hsubject
  · exact holder?_searched_congr _ h
  · cases hsubject
  · cases hsubject
  · rfl

end AccessRequest

namespace Seed

variable {s s' : Seed} {fresh fresh' : Nat → String} {now now' : Instant} {st st' : Stores}
  {r : AccessRequest} {subject holder : Principal} {g c p : GroupId} {id : String}

def Links (s : Seed) (fresh : Nat → String) (c p : GroupId) : Prop :=
  ∃ i, ∃ g : SeedGroup, s.groups[i]? = some g ∧ g.id.getD (fresh i) = c ∧ g.parent = some p

def IsAbove (s : Seed) (fresh : Nat → String) (p c : GroupId) : Prop :=
  Relation.TransGen (s.Links fresh) c p

/-- A group shares in what is granted above it, and everybody else in what is granted to the groups
they are listed in and above these. -/
def Shares (s : Seed) (fresh : Nat → String) (subject : Principal) (g : GroupId) : Prop :=
  match subject.kind with
  | .group => s.IsAbove fresh g subject.id
  | .user | .thing =>
    ∃ m ∈ s.memberships, m.member = subject.id ∧ (g = m.group ∨ s.IsAbove fresh g m.group)

/-- The document grants a holder what is requested. -/
def Grants (s : Seed) (holder : Principal) (r : AccessRequest) : Prop :=
  ∃ p ∈ s.policies, p.holder = holder ∧ r.object.WrittenAs p.object ∧ p.action = r.action

/-- The document grants a request to its subject or to a group that the subject shares in. -/
def Allows (s : Seed) (fresh : Nat → String) (r : AccessRequest) : Prop :=
  s.Grants r.subject r ∨ ∃ g, s.Shares fresh r.subject g ∧ s.Grants (Group.principal g) r

def Fills (s : Seed) (fresh : Nat → String) (now : Instant) (st : Stores) : Prop :=
  st.Holds (storedGroups fresh now s.groups) s.memberships
    (storedPolicies fresh s.groups.length s.policies)

namespace Fills

theorem parentOf_eq_some_iff (h : s.Fills fresh now st) :
    st.groups.parentOf c = some p ↔ s.Links fresh c p := by
  simp only [GroupStore.parentOf, Option.bind_eq_some_iff, h.groups, mem_storedGroups, Links]
  constructor
  · rintro ⟨_, ⟨⟨i, g, hg, rfl⟩, hid⟩, hparent⟩
    exact ⟨i, g, hg, hid, hparent⟩
  · rintro ⟨i, g, hg, hid, hparent⟩
    exact ⟨_, ⟨⟨i, g, hg, rfl⟩, hid⟩, hparent⟩

theorem isAbove_iff (h : s.Fills fresh now st) : st.groups.IsAbove p c ↔ s.IsAbove fresh p c := by
  have hlinks : (fun c q => st.groups.parentOf c = some q) = s.Links fresh :=
    funext₂ fun c q => propext h.parentOf_eq_some_iff
  rw [GroupStore.IsAbove, hlinks, IsAbove]

/-- Whose rights a subject shares can be read off the document. -/
theorem inherits_iff (h : s.Fills fresh now st) :
    st.groups.Inherits subject g ↔ s.Shares fresh subject g := by
  have hseeds :
      (∃ seed, subject.id ∈ st.groups.membersOf seed ∧ (g = seed ∨ st.groups.IsAbove g seed)) ↔
      ∃ m ∈ s.memberships, m.member = subject.id ∧ (g = m.group ∨ s.IsAbove fresh g m.group) := by
    simp only [h.members, h.isAbove_iff]
    constructor
    · rintro ⟨seed, hseed, hg⟩
      exact ⟨_, hseed, rfl, hg⟩
    · rintro ⟨m, hm, hmember, hg⟩
      exact ⟨m.group, hmember ▸ hm, hg⟩
  rw [GroupStore.Inherits, Shares]
  cases subject.kind with
  | group => exact h.isAbove_iff
  | user => exact hseeds
  | thing => exact hseeds

theorem holds_iff (h : s.Fills fresh now st) : r.Holds st.policies holder ↔ s.Grants holder r := by
  simp only [AccessRequest.Holds, h.policies, mem_storedPolicies, Grants, AccessRequest.right]
  constructor
  · rintro ⟨_, _, ⟨⟨i, p, hp, o, ho, rfl⟩, -⟩, hright⟩
    obtain ⟨rfl, rfl, haction⟩ := Right.mk.inj hright
    exact ⟨p, List.mem_of_getElem? hp, rfl, ho, haction⟩
  · rintro ⟨p, hp, rfl, ho, haction⟩
    obtain ⟨i, hi⟩ := List.getElem?_of_mem hp
    exact ⟨_, _, ⟨⟨i, p, hi, r.object, ho, rfl⟩, rfl⟩, by rw [haction]⟩

theorem isAllowed_iff (h : s.Fills fresh now st) (r : AccessRequest) :
    (r.firstMatch st).isAllowed = true ↔ s.Allows fresh r := by
  rw [r.firstMatch_isAllowed_iff h.sound, Allows]
  simp only [h.holds_iff, h.inherits_iff]

end Fills

theorem Fresh.apply_cases (h : s.Fresh fresh) (now : Instant) :
    (∃ st, s.apply fresh now .empty = (.ok (), st) ∧ s.WellFormed ∧ s.Fills fresh now st) ∨
      (∃ e st, s.apply fresh now .empty = (.error e, st)) ∧ ¬s.WellFormed := h.leads_steps

/-- The command prints the first match. The settings leave the engine some time, so it is not the
deadline that answers. -/
theorem runCommand_check {start : CommandLine.Start} {config : Option String} {settings : Settings}
    {path object action : String} {o : ObjectRef}
    (hsettings : CommandLine.settings start config = .ok settings)
    (hfile : Seed.ofFile start.environment path = .ok s)
    (happly : s.apply start.fresh start.now .empty = (.ok (), st))
    (hobject : ObjectRef.parse object = .ok o) (h : st.Sound) :
    CommandLine.runCommand start config (.check path subject object action) =
      .ok (if ((AccessRequest.mk subject o action).firstMatch st).isAllowed then 0 else 1,
        Json.pretty ((AccessRequest.mk subject o action).firstMatch st).toValue ++ "\n") := by
  have hlimit : (CommandLine.engine settings).decisionTimeout ≠ some 0 := by
    have hpositive := (CommandLine.acceptable_of_settings hsettings).decisionTimeout
    exact fun hzero => Nat.ne_of_gt hpositive (Option.some.inj hzero)
  have hanswer := (Engine.authorize_calm hlimit (w := ⟨st, 0, 0⟩) h ⟨subject, o, action⟩).1
  have hjudge : CommandLine.judge start settings path subject object action =
      .ok ((AccessRequest.mk subject o action).firstMatch st) := by
    rw [CommandLine.judge, hfile]
    simp only [bind, Except.bind, Except.mapError, happly, hobject, hanswer, Option.getD_some]
  rw [CommandLine.runCommand, hsettings]
  simp only [bind, Except.bind, hjudge, pure, Except.pure]

/-- Two documents have the same records, though in another order and with memberships repeated or
not; in the first one too parents come first. -/
structure Rearranges (s' s : Seed) : Prop where
  groups : s'.groups.Perm s.groups
  parentsFirst : InTurn SeedGroup.Follows s'.groups
  memberships : ∀ m, m ∈ s'.memberships ↔ m ∈ s.memberships
  policies : s'.policies.Perm s.policies

namespace Rearranges

/-- A document stays well-formed when its records are rearranged with parents still first. -/
theorem wellFormed (h : s'.Rearranges s) (hs : s.WellFormed) : s'.WellFormed where
  named g hg := hs.named g (h.groups.mem_iff.1 hg)
  groupsApart := by
    rw [h.groups.pairwise_iff]
    · exact hs.groupsApart
    · exact fun hapart => ⟨hapart.name.symm, fun id hg hk => hapart.id id hk hg⟩
  parentsFirst := h.parentsFirst
  memberships m hm := by
    obtain ⟨hmember, g, hg, hid⟩ := hs.memberships m ((h.memberships m).1 hm)
    exact ⟨hmember, g, h.groups.mem_iff.2 hg, hid⟩
  policies p hp := hs.policies p (h.policies.mem_iff.1 hp)
  policiesApart := by
    rw [h.policies.pairwise_iff]
    · exact hs.policiesApart
    · exact fun hapart ⟨hholder, hobject, haction⟩ =>
        hapart ⟨hholder.symm, hobject.symm, haction.symm⟩

theorem mentions_iff (h : s'.Rearranges s) : s'.Mentions id ↔ s.Mentions id := by
  simp only [Mentions, h.groups.mem_iff, h.memberships, h.policies.mem_iff]

theorem size_eq (h : s'.Rearranges s) : s'.size = s.size := by
  rw [size, size, h.groups.length_eq, h.policies.length_eq]

theorem grants_iff (h : s'.Rearranges s) : s'.Grants holder r ↔ s.Grants holder r := by
  simp only [Grants, h.policies.mem_iff]

end Rearranges

/-- Away from identifiers that are made up, parents are told without them. -/
theorem links_iff (hc : ∀ i < s.size, c ≠ fresh i) :
    s.Links fresh c p ↔ ∃ g ∈ s.groups, g.id = some c ∧ g.parent = some p := by
  constructor
  · rintro ⟨i, g, hg, hid, hparent⟩
    refine ⟨g, List.mem_of_getElem? hg, ?_, hparent⟩
    cases hgiven : g.id with
    | none =>
      rw [hgiven] at hid
      exact absurd hid.symm (hc i (lt_size_of_group hg))
    | some given =>
      rw [hgiven] at hid
      exact congrArg some hid
  · rintro ⟨g, hmem, hid, hparent⟩
    obtain ⟨i, hg⟩ := List.getElem?_of_mem hmem
    exact ⟨i, g, hg, by rw [hid]; rfl, hparent⟩

/-- Whatever rights are shared, they are those of groups that the document speaks of. -/
theorem mentions_of_shares (h : s.Shares fresh subject g) : s.Mentions g := by
  have habove : ∀ {c}, s.IsAbove fresh g c → s.Mentions g := by
    intro c hc
    obtain ⟨d, -, i, k, hk, -, hparent⟩ := Relation.TransGen.tail'_iff.1 hc
    exact .inl ⟨k, List.mem_of_getElem? hk, .inr hparent⟩
  have hlisted :
      (∃ m ∈ s.memberships, m.member = subject.id ∧ (g = m.group ∨ s.IsAbove fresh g m.group)) →
      s.Mentions g := by
    rintro ⟨m, hm, -, rfl | hg⟩
    · exact .inr (.inl ⟨m, hm, rfl⟩)
    · exact habove hg
  rw [Shares] at h
  cases hkind : subject.kind with
  | group =>
    rw [hkind] at h
    exact habove h
  | user =>
    rw [hkind] at h
    exact hlisted h
  | thing =>
    rw [hkind] at h
    exact hlisted h

theorem Fresh.ne_of_mentions (h : s.Fresh fresh) (hid : s.Mentions id) :
    ∀ i < s.size, id ≠ fresh i := by
  rintro i hi rfl
  exact h.unmentioned i hi hid

/-- A request that is not made for an identifier that was made up is allowed on behalf of the same
subject or group. -/
theorem Rearranges.holder?_eq (h : s'.Rearranges s) (hfresh : s.Fresh fresh)
    (hfresh' : s'.Fresh fresh') (hst : s.Fills fresh now st) (hst' : s'.Fills fresh' now' st')
    (hsubject : ∀ i < s.size, r.subject ≠ Group.principal (fresh i) ∧
      r.subject ≠ Group.principal (fresh' i)) :
    (r.firstMatch st').holder? r.subject = (r.firstMatch st).holder? r.subject := by
  apply AccessRequest.holder?_firstMatch_congr
  · refine hst.sound.groups.inheritedBy_congr hst'.sound.groups ?_ ?_
    · intro _ g
      rw [hst'.members, hst.members, h.memberships]
    · intro c hc
      -- parents are looked up for the subject and for groups it shares in, and none of these was
      -- made up
      have hgiven : (∀ i < s.size, c ≠ fresh i) ∧ ∀ i < s'.size, c ≠ fresh' i := by
        rcases hc with hc | hc
        · rw [h.size_eq]
          refine ⟨fun i hi he => (hsubject i hi).1 ?_, fun i hi he => (hsubject i hi).2 ?_⟩
          · rw [hc, he]
          · rw [hc, he]
        · have hmentioned := mentions_of_shares (hst.inherits_iff.1 hc)
          exact ⟨hfresh.ne_of_mentions hmentioned,
            hfresh'.ne_of_mentions (h.mentions_iff.2 hmentioned)⟩
      apply Option.ext
      intro p
      rw [hst'.parentOf_eq_some_iff, hst.parentOf_eq_some_iff, links_iff hgiven.2,
        links_iff hgiven.1]
      simp only [h.groups.mem_iff]
  · intro holder
    rw [Bool.eq_iff_iff, AccessRequest.granting?_isSome_iff hst'.sound,
      AccessRequest.granting?_isSome_iff hst.sound, hst'.holds_iff, hst.holds_iff, h.grants_iff]

/-- A seed is taken up by empty stores exactly when it is well-formed, and then they hold its
records and decide every request as the document reads, also when the command is run on it. The same
records in another order, with memberships repeated or not, are taken up too and lead to the same
decisions, allowed by the same holders. -/
theorem applied_means_document (s : Seed) (fresh : Nat → String) (now : Instant)
    (hfresh : s.Fresh fresh) :
    ((s.apply fresh now .empty).1 = .ok () ↔ s.WellFormed) ∧
    ∀ st, s.apply fresh now .empty = (.ok (), st) →
      s.Fills fresh now st ∧
      (∀ r : AccessRequest, ∃ d, r.decision.run st = (.ok d, st) ∧
        (d.isAllowed = true ↔ s.Allows fresh r)) ∧
      (∀ (start : CommandLine.Start) config settings path subject object action o,
        start.fresh = fresh → start.now = now → CommandLine.settings start config = .ok settings →
        Seed.ofFile start.environment path = .ok s → ObjectRef.parse object = .ok o →
        ∃ status output,
          CommandLine.runCommand start config (.check path subject object action) =
            .ok (status, output) ∧
          (status = 0 ↔ s.Allows fresh ⟨subject, o, action⟩)) ∧
      ∀ (s' : Seed) (fresh' : Nat → String) (now' : Instant), s'.Rearranges s → s'.Fresh fresh' →
        ∃ st', s'.apply fresh' now' .empty = (.ok (), st') ∧
          ∀ r : AccessRequest,
            (∀ i < s.size, r.subject ≠ Group.principal (fresh i) ∧
              r.subject ≠ Group.principal (fresh' i)) →
            ∃ d d', r.decision.run st = (.ok d, st) ∧ r.decision.run st' = (.ok d', st') ∧
              d'.isAllowed = d.isAllowed ∧ d'.holder? r.subject = d.holder? r.subject := by
  rcases hfresh.apply_cases now with ⟨st, happly, hformed, hst⟩ | ⟨⟨e, st, happly⟩, hformed⟩
  · refine ⟨⟨fun _ => hformed, fun _ => by rw [happly]⟩, ?_⟩
    intro st' happly'
    cases happly.symm.trans happly'
    refine ⟨hst, ?_, ?_, ?_⟩
    · exact fun r => ⟨_, AccessRequest.run_decision hst.sound r, hst.isAllowed_iff r⟩
    · rintro start config settings path subject object action o rfl rfl hsettings hfile hobject
      refine ⟨_, _, runCommand_check hsettings hfile happly hobject hst.sound, ?_⟩
      rw [← hst.isAllowed_iff, ite_eq_left_iff]
      simp
    · intro s' fresh' now' hrearranges hfresh'
      rcases hfresh'.apply_cases now' with ⟨st', happly', -, hst'⟩ | ⟨-, hnot⟩
      · refine ⟨st', happly', fun r hsubject => ?_⟩
        have hholder := hrearranges.holder?_eq hfresh hfresh' hst hst' hsubject
        refine ⟨_, _, AccessRequest.run_decision hst.sound r,
          AccessRequest.run_decision hst'.sound r, ?_, hholder⟩
        rw [Decision.isAllowed_eq r.subject, Decision.isAllowed_eq r.subject, hholder]
      · exact absurd (hrearranges.wellFormed hformed) hnot
  · refine ⟨⟨fun hok => ?_, fun h => absurd h hformed⟩, ?_⟩
    · rw [happly] at hok
      cases hok
    · intro st' happly'
      cases happly.symm.trans happly'

def fleetSeed : Seed where
  groups :=
    [⟨some "fleet", "fleet", "root", none, "", []⟩,
    ⟨some "sensors", "sensors", "root", some "fleet", "", []⟩,
    ⟨none, "spare", "root", some "fleet", "", []⟩]
  memberships := [⟨"thing-1", "sensors"⟩, ⟨"thing-1", "sensors"⟩]
  policies := [⟨⟨.group, "fleet"⟩, "channel:1", "publish"⟩]

def rearrangedFleet : Seed where
  groups :=
    [⟨some "fleet", "fleet", "root", none, "", []⟩, ⟨none, "spare", "root", some "fleet", "", []⟩,
    ⟨some "sensors", "sensors", "root", some "fleet", "", []⟩]
  memberships := [⟨"thing-1", "sensors"⟩]
  policies := [⟨⟨.group, "fleet"⟩, "channel:1", "publish"⟩]

theorem fleetSeed_means_document :
    fleetSeed.Fresh Fresh.uuid ∧ rearrangedFleet.Rearranges fleetSeed ∧
    ∃ st st', fleetSeed.apply Fresh.uuid ⟨0, 0⟩ .empty = (.ok (), st) ∧
      rearrangedFleet.apply Fresh.uuid ⟨0, 0⟩ .empty = (.ok (), st') ∧
      ∃ d d', (AccessRequest.mk ⟨.thing, "thing-1"⟩ ⟨"channel", "1"⟩ "publish").decision.run st =
        (.ok d, st) ∧
        (AccessRequest.mk ⟨.thing, "thing-1"⟩ ⟨"channel", "1"⟩ "publish").decision.run st' =
          (.ok d', st') ∧
        d.isAllowed = true ∧ d'.isAllowed = true := by
  have hfresh : fleetSeed.Fresh Fresh.uuid :=
    ⟨by decide +kernel, by decide +kernel, by decide +kernel⟩
  have hfresh' : rearrangedFleet.Fresh Fresh.uuid :=
    ⟨by decide +kernel, by decide +kernel, by decide +kernel⟩
  obtain ⟨-, hmeans⟩ := applied_means_document fleetSeed Fresh.uuid ⟨0, 0⟩ hfresh
  obtain ⟨hformed, -⟩ := applied_means_document rearrangedFleet Fresh.uuid ⟨0, 0⟩ hfresh'
  have happly : (fleetSeed.apply Fresh.uuid ⟨0, 0⟩ .empty).1 = .ok () := by decide +kernel
  have happly' : (rearrangedFleet.apply Fresh.uuid ⟨0, 0⟩ .empty).1 = .ok () := by decide +kernel
  have hrearranges : rearrangedFleet.Rearranges fleetSeed :=
    ⟨(List.Perm.swap _ _ []).cons _, (hformed.1 happly').parentsFirst,
      by simp [fleetSeed, rearrangedFleet], .refl _⟩
  obtain ⟨-, hdecides, -, hsame⟩ := hmeans _ (Prod.ext happly rfl)
  obtain ⟨st', hst', hagrees⟩ := hsame rearrangedFleet Fresh.uuid ⟨0, 0⟩ hrearranges hfresh'
  obtain ⟨d, d', hd, hd', hallowed', -⟩ :=
    hagrees ⟨⟨.thing, "thing-1"⟩, ⟨"channel", "1"⟩, "publish"⟩
    fun i _ => ⟨nofun, nofun⟩
  have hallowed : d.isAllowed = true := by
    obtain ⟨d'', hd'', hiff⟩ := hdecides ⟨⟨.thing, "thing-1"⟩, ⟨"channel", "1"⟩, "publish"⟩
    cases hd.symm.trans hd''
    refine hiff.2 (.inr ⟨"fleet", ?_, ?_⟩)
    · exact ⟨⟨"thing-1", "sensors"⟩, List.mem_cons_self .., rfl,
        .inr (.single ⟨1, _, rfl, rfl, rfl⟩)⟩
    · exact ⟨_, List.mem_cons_self .., rfl, ⟨by decide, by decide, by decide, by decide⟩, rfl⟩
  exact ⟨hfresh, hrearranges, _, st', Prod.ext happly rfl, hst', d, d', hd, hd', hallowed,
    hallowed'.trans hallowed⟩

end Seed
end AccessControl
