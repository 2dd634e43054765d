import AccessControl.Proofs.Seed.Records

/-! # Seeds that are taken up

A seed is well-formed when its records fit together as they stand in the document. Given identifiers
that are really new, these are the seeds that empty stores take up, and afterwards the stores hold
what the document says.
-/
namespace AccessControl

structure SeedGroup.Apart (k g : SeedGroup) : Prop where
  name : k.name ≠ g.name
  id : ∀ id, k.id = some id → g.id ≠ some id

def SeedGroup.Follows (before : List SeedGroup) (g : SeedGroup) : Prop :=
  ∀ p, g.parent = some p → ∃ k ∈ before, k.id = some p

def SeedPolicy.Apart (q p : SeedPolicy) : Prop :=
  ¬(q.holder = p.holder ∧ q.object = p.object ∧ q.action = p.action)

def SeedGroup.stored (fresh : Nat → String) (now : Instant) (i : Nat) (g : SeedGroup) : Group :=
  ⟨g.id.getD (fresh i), g.ownerId, g.parent, g.name, g.description, g.metadata, now, now⟩

def SeedPolicy.stored? (fresh : Nat → String) (first i : Nat) (p : SeedPolicy) : Option Policy :=
  match ObjectRef.parse p.object with
  | .ok o => some ⟨fresh (first + i), ⟨p.holder, o, p.action⟩⟩
  | .error _ => none

namespace Seed

variable {s : Seed} {fresh : Nat → String} {now : Instant} {i first : Nat} {id : String}
  {g k : SeedGroup} {p : SeedPolicy} {gs before after : List SeedGroup}
  {ps earlier later : List SeedPolicy}

structure WellFormed (s : Seed) : Prop where
  named : ∀ g ∈ s.groups, g.id ≠ some "" ∧ Text.isBlank g.name = false
  groupsApart : s.groups.Pairwise SeedGroup.Apart
  parentsFirst : InTurn SeedGroup.Follows s.groups
  memberships : ∀ m ∈ s.memberships, m.member ≠ "" ∧ ∃ g ∈ s.groups, g.id = some m.group
  policies : ∀ p ∈ s.policies, p.holder.id ≠ "" ∧ p.action ≠ "" ∧
    ∃ o : ObjectRef, o.WrittenAs p.object
  policiesApart : s.policies.Pairwise SeedPolicy.Apart

def Mentions (s : Seed) (id : GroupId) : Prop :=
  (∃ g ∈ s.groups, g.id = some id ∨ g.parent = some id) ∨ (∃ m ∈ s.memberships, m.group = id) ∨
    ∃ p ∈ s.policies, p.holder = Group.principal id

instance (s : Seed) (id : GroupId) : Decidable (s.Mentions id) :=
  inferInstanceAs (Decidable ((∃ g ∈ s.groups, g.id = some id ∨ g.parent = some id) ∨
    (∃ m ∈ s.memberships, m.group = id) ∨ ∃ p ∈ s.policies, p.holder = Group.principal id))

def size (s : Seed) : Nat := s.groups.length + s.policies.length

/-- The identifiers that are made up are new to the document and to each other. -/
structure Fresh (s : Seed) (fresh : Nat → String) : Prop where
  nonempty : ∀ i < s.size, fresh i ≠ ""
  distinct : ∀ i < s.size, ∀ j < s.size, fresh i = fresh j → i = j
  unmentioned : ∀ i < s.size, ¬s.Mentions (fresh i)

def storedGroups (fresh : Nat → String) (now : Instant) (gs : List SeedGroup) : List Group :=
  gs.mapIdx (SeedGroup.stored fresh now)

def storedPolicies (fresh : Nat → String) (first : Nat) (ps : List SeedPolicy) : List Policy :=
  (ps.mapIdx (SeedPolicy.stored? fresh first)).filterMap fun p => p

theorem mem_storedGroups {x : Group} :
    x ∈ storedGroups fresh now gs ↔
      ∃ i, ∃ g : SeedGroup, gs[i]? = some g ∧ x = g.stored fresh now i := by
  rw [storedGroups, List.mem_mapIdx]
  constructor
  · rintro ⟨i, hi, rfl⟩
    exact ⟨i, gs[i], List.getElem?_eq_getElem hi, rfl⟩
  · rintro ⟨i, g, hg, rfl⟩
    obtain ⟨hi, rfl⟩ := List.getElem?_eq_some_iff.1 hg
    exact ⟨i, hi, rfl⟩

theorem stored?_eq_some_iff {x : Policy} : p.stored? fresh first i = some x ↔
    ∃ o : ObjectRef, o.WrittenAs p.object ∧ x = ⟨fresh (first + i), ⟨p.holder, o, p.action⟩⟩ := by
  simp only [← ObjectRef.parse_eq_ok_iff]
  rw [SeedPolicy.stored?]
  cases ObjectRef.parse p.object with
  | error e => exact ⟨nofun, nofun⟩
  | ok o => simp [eq_comm]

theorem mem_storedPolicies {x : Policy} :
    x ∈ storedPolicies fresh first ps ↔ ∃ i p, ps[i]? = some p ∧
    ∃ o : ObjectRef, o.WrittenAs p.object ∧ x = ⟨fresh (first + i), ⟨p.holder, o, p.action⟩⟩ := by
  simp only [storedPolicies, List.mem_filterMap, List.mem_mapIdx, ← stored?_eq_some_iff]
  constructor
  · rintro ⟨_, ⟨i, hi, rfl⟩, hx⟩
    exact ⟨i, ps[i], List.getElem?_eq_getElem hi, hx⟩
  · rintro ⟨i, p, hp, hx⟩
    obtain ⟨hi, rfl⟩ := List.getElem?_eq_some_iff.1 hp
    exact ⟨_, ⟨i, hi, rfl⟩, hx⟩

theorem getElem?_of_split {α : Type} {l before after : List α} {y : α} {i : Nat}
    (hl : l = before ++ after) (hy : before[i]? = some y) : l[i]? = some y ∧ i < before.length := by
  have hi := (List.getElem?_eq_some_iff.1 hy).1
  rw [hl, List.getElem?_append_left hi]
  exact ⟨hy, hi⟩

theorem getElem?_split {α : Type} {l before after : List α} {x : α}
    (hl : l = before ++ x :: after) :
    l[before.length]? = some x := by
  rw [hl, List.getElem?_append_right (Nat.le_refl _), Nat.sub_self]
  rfl

theorem lt_size_of_group (hg : s.groups[i]? = some g) : i < s.size :=
  Nat.lt_add_right _ (List.getElem?_eq_some_iff.1 hg).1

/-- A group that the document speaks of is found where the document gives the identifier. -/
theorem Fresh.id_stored_iff (h : s.Fresh fresh) (hk : s.groups[i]? = some k) (hid : s.Mentions id) :
    (k.stored fresh now i).id = id ↔ k.id = some id := by
  cases hgiven : k.id with
  | none =>
    have hnew : fresh i ≠ id := by
      rintro rfl
      exact h.unmentioned i (lt_size_of_group hk) hid
    simpa [SeedGroup.stored, hgiven] using hnew
  | some given => simp [SeedGroup.stored, hgiven]

/-- Identifiers coincide only where the document gives the same one twice. -/
theorem Fresh.id_stored_eq_iff (h : s.Fresh fresh) {j : Nat} (hk : s.groups[i]? = some k)
    (hg : s.groups[j]? = some g) (hne : i ≠ j) :
    (k.stored fresh now i).id = (g.stored fresh now j).id ↔
      ∃ id, k.id = some id ∧ g.id = some id := by
  cases hgiven : g.id with
  | some id =>
    have hid : s.Mentions id := .inl ⟨g, List.mem_of_getElem? hg, .inl hgiven⟩
    rw [(h.id_stored_iff hg hid).2 hgiven, h.id_stored_iff hk hid]
    simp
  | none =>
    have hown : (g.stored fresh now j).id = fresh j := by simp [SeedGroup.stored, hgiven]
    simp only [reduceCtorEq, and_false, exists_const, iff_false]
    rw [hown]
    cases hgiven' : k.id with
    | some id =>
      have hid : s.Mentions id := .inl ⟨k, List.mem_of_getElem? hk, .inl hgiven'⟩
      rw [(h.id_stored_iff hk hid).2 hgiven']
      rintro rfl
      exact h.unmentioned j (lt_size_of_group hg) hid
    | none =>
      have hother : (k.stored fresh now i).id = fresh i := by simp [SeedGroup.stored, hgiven']
      rw [hother]
      exact fun he => hne (h.distinct i (lt_size_of_group hk) j (lt_size_of_group hg) he)

theorem Fresh.id_stored_ne_empty_iff (h : s.Fresh fresh) (hg : s.groups[i]? = some g) :
    (g.stored fresh now i).id ≠ "" ↔ g.id ≠ some "" := by
  cases hgiven : g.id with
  | some id => simp [SeedGroup.stored, hgiven]
  | none => simpa [SeedGroup.stored, hgiven] using h.nonempty i (lt_size_of_group hg)

theorem Fresh.exists_stored_iff (h : s.Fresh fresh) (hs : s.groups = before ++ after)
    (hid : s.Mentions id) :
    (∃ x ∈ storedGroups fresh now before, x.id = id) ↔ ∃ k ∈ before, k.id = some id := by
  have hat : ∀ {i : Nat} {k : SeedGroup}, before[i]? = some k → s.groups[i]? = some k :=
    fun hk => (getElem?_of_split hs hk).1
  simp only [mem_storedGroups]
  constructor
  · rintro ⟨_, ⟨i, k, hk, rfl⟩, hx⟩
    exact ⟨k, List.mem_of_getElem? hk, (h.id_stored_iff (hat hk) hid).1 hx⟩
  · rintro ⟨k, hmem, hgiven⟩
    obtain ⟨i, hk⟩ := List.getElem?_of_mem hmem
    exact ⟨_, ⟨i, k, hk, rfl⟩, (h.id_stored_iff (hat hk) hid).2 hgiven⟩

/-- A group is new to the stored ones exactly when it differs from those before it in the document:
a made-up identifier is no obstacle. -/
theorem Fresh.apart_iff (h : s.Fresh fresh) (hs : s.groups = before ++ g :: after) :
    (∀ x ∈ storedGroups fresh now before, x.name ≠ g.name ∧
      x.id ≠ (g.stored fresh now before.length).id) ↔
      ∀ k ∈ before, k.Apart g := by
  have hids : ∀ {i : Nat} {k : SeedGroup}, before[i]? = some k →
      ((k.stored fresh now i).id ≠ (g.stored fresh now before.length).id ↔
        ∀ id, k.id = some id → g.id ≠ some id) := by
    intro i k hi
    obtain ⟨hk, hlt⟩ := getElem?_of_split hs hi
    rw [Ne, h.id_stored_eq_iff hk (getElem?_split hs) (Nat.ne_of_lt hlt)]
    simp only [not_exists, not_and, ne_eq]
  simp only [mem_storedGroups]
  constructor
  · intro hall k hk
    obtain ⟨i, hi⟩ := List.getElem?_of_mem hk
    obtain ⟨hname, hid⟩ := hall _ ⟨i, k, hi, rfl⟩
    exact ⟨hname, (hids hi).1 hid⟩
  · rintro hall _ ⟨i, k, hi, rfl⟩
    have hapart := hall k (List.mem_of_getElem? hi)
    exact ⟨hapart.name, (hids hi).2 hapart.id⟩

theorem Fresh.fits_stored (h : s.Fresh fresh) (hs : s.groups = before ++ g :: after) :
    (g.stored fresh now before.length).Fits (storedGroups fresh now before) ↔
      ((g.id ≠ some "" ∧ Text.isBlank g.name = false) ∧ ∀ k ∈ before, k.Apart g) ∧
        g.Follows before := by
  have hg := getElem?_split hs
  have hparent : ∀ {p}, g.parent = some p → s.Mentions p :=
    fun hp => .inl ⟨g, List.mem_of_getElem? hg, .inr hp⟩
  rw [← h.id_stored_ne_empty_iff hg, ← h.apart_iff hs]
  constructor
  · intro hfits
    refine ⟨⟨⟨hfits.id.1, hfits.name.1⟩, fun x hx => ⟨hfits.name.2 x hx, hfits.id.2 x hx⟩⟩,
      fun p hp => ?_⟩
    exact (h.exists_stored_iff hs (hparent hp)).1 (hfits.parent p hp).2
  · rintro ⟨⟨⟨hid, hname⟩, hapart⟩, hfollows⟩
    refine ⟨⟨hid, fun x hx => (hapart x hx).2⟩, ⟨hname, fun x hx => (hapart x hx).1⟩,
      fun p hp => ?_⟩
    obtain ⟨x, hx, hxid⟩ := (h.exists_stored_iff hs (hparent hp)).2 (hfollows p hp)
    exact ⟨fun hown => (hapart x hx).2 (hxid.trans hown), x, hx, hxid⟩

theorem Fresh.leads_groups (h : s.Fresh fresh) (now : Instant) :
    Leads .empty (s.groups.mapIdx (groupStep fresh now))
    (InTurn (fun before g =>
      ((g.id ≠ some "" ∧ Text.isBlank g.name = false) ∧ ∀ k ∈ before, k.Apart g) ∧
      g.Follows before) s.groups) fun st => st.Holds (storedGroups fresh now s.groups) [] [] := by
  refine leads_inTurn (I := fun gs st => st.Holds (storedGroups fresh now gs) [] [])
    Stores.holds_empty ?_
  intro before g after hs st hst
  refine Leads.of_call (hst.exists_saveGroup.trans (h.fits_stored hs)) fun st' hnext => ?_
  rw [storedGroups, List.mapIdx_concat]
  exact hst.saveGroup hnext

/-- The memberships are taken up exactly when every one names a member and a group of the document.
-/
theorem Fresh.leads_memberships (h : s.Fresh fresh) {st : Stores}
    (hst : st.Holds (storedGroups fresh now s.groups) [] []) :
    Leads st (s.memberships.map membershipStep)
      (∀ m ∈ s.memberships, m.member ≠ "" ∧ ∃ g ∈ s.groups, g.id = some m.group)
      fun st => st.Holds (storedGroups fresh now s.groups) s.memberships [] := by
  have hstep : ∀ before m after, s.memberships = before ++ m :: after → ∀ st : Stores,
      st.Holds (storedGroups fresh now s.groups) before [] →
      Leads st [membershipStep m] (m.member ≠ "" ∧ ∃ g ∈ s.groups, g.id = some m.group) fun st =>
        st.Holds (storedGroups fresh now s.groups) (before ++ [m]) [] := by
    intro before m after hs st hst
    have hm : s.Mentions m.group :=
      .inr (.inl ⟨m, hs ▸ List.mem_append_right _ (List.mem_cons_self ..), rfl⟩)
    refine Leads.of_call ?_ fun st' hnext => hst.assign hnext
    rw [hst.exists_assign, h.exists_stored_iff (List.append_nil _).symm hm]
  have hall := leads_inTurn (f := fun _ => membershipStep)
    (I := fun ms st => st.Holds (storedGroups fresh now s.groups) ms []) hst hstep
  rw [inTurn_forall] at hall
  have hmap : s.memberships.mapIdx (fun _ => membershipStep) = s.memberships.map membershipStep :=
    List.ext_getElem? fun i => by simp
  rwa [hmap] at hall

theorem lt_size_of_policy (hp : s.policies[i]? = some p) : s.groups.length + i < s.size :=
  Nat.add_lt_add_left (List.getElem?_eq_some_iff.1 hp).1 _

theorem storedPolicies_concat : storedPolicies fresh first (ps ++ [p]) =
    storedPolicies fresh first ps ++ (p.stored? fresh first ps.length).toList := by
  rw [storedPolicies, List.mapIdx_concat, List.filterMap_append]
  cases p.stored? fresh first ps.length <;> rfl

/-- A policy whose object can be read fits in when no record before says the same. -/
theorem Fresh.fits_policy (h : s.Fresh fresh) (hs : s.policies = earlier ++ p :: later)
    {o : ObjectRef} (ho : o.WrittenAs p.object) :
    (Policy.mk (fresh (s.groups.length + earlier.length)) ⟨p.holder, o, p.action⟩).Fits
        (storedPolicies fresh s.groups.length earlier) ↔
      (p.holder.id ≠ "" ∧ p.action ≠ "") ∧ ∀ q ∈ earlier, q.Apart p := by
  have hlt := lt_size_of_policy (getElem?_split hs)
  have hid : ∀ q ∈ storedPolicies fresh s.groups.length earlier,
      q.id ≠ fresh (s.groups.length + earlier.length) := by
    intro q hq he
    obtain ⟨i, q, hi, o, -, rfl⟩ := mem_storedPolicies.1 hq
    obtain ⟨hq, hi⟩ := getElem?_of_split hs hi
    have hindex := h.distinct _ (lt_size_of_policy hq) _ hlt he
    omega
  have hright :
      (∀ q ∈ storedPolicies fresh s.groups.length earlier, q.right ≠ ⟨p.holder, o, p.action⟩) ↔
      ∀ q ∈ earlier, q.Apart p := by
    simp only [mem_storedPolicies]
    constructor
    · rintro hall q hq ⟨hholder, hobject, haction⟩
      obtain ⟨i, hi⟩ := List.getElem?_of_mem hq
      refine hall _ ⟨i, q, hi, o, hobject ▸ ho, rfl⟩ ?_
      rw [hholder, haction]
    · rintro hall _ ⟨i, q, hi, o', ho', rfl⟩ he
      obtain ⟨hholder, rfl, haction⟩ := Right.mk.inj he
      exact hall q (List.mem_of_getElem? hi) ⟨hholder, by rw [ho'.text, ho.text], haction⟩
  constructor
  · intro hfits
    obtain ⟨-, hholder, -, -, haction⟩ := Policy.filled_iff.1 hfits.filled
    exact ⟨⟨hholder, haction⟩, hright.1 hfits.right⟩
  · rintro ⟨⟨hholder, haction⟩, hapart⟩
    refine ⟨Policy.filled_iff.2 ⟨?_, hholder, ho.objectType, ho.objectId, haction⟩, hid,
      hright.2 hapart⟩
    exact h.nonempty _ hlt

/-- The policies are taken up exactly when each can be read and none has the right of one before it.
-/
theorem Fresh.leads_policies (h : s.Fresh fresh) {st : Stores} {gs : List Group}
    {ms : List SeedMembership} (hst : st.Holds gs ms []) :
    Leads st (s.policies.mapIdx fun i p => policyStep fresh (s.groups.length + i) p)
      (InTurn (fun before p =>
        (p.holder.id ≠ "" ∧ p.action ≠ "" ∧ ∃ o : ObjectRef, o.WrittenAs p.object) ∧
        ∀ q ∈ before, q.Apart p) s.policies)
      fun st => st.Holds gs ms (storedPolicies fresh s.groups.length s.policies) := by
  refine leads_inTurn
    (I := fun ps st => st.Holds gs ms (storedPolicies fresh s.groups.length ps)) hst ?_
  intro before p after hs st hst
  rw [policyStep, storedPolicies_concat, SeedPolicy.stored?]
  cases hparse : ObjectRef.parse p.object with
  | error e =>
    refine Leads.of_unreadable ?_
    rintro ⟨⟨-, -, o, ho⟩, -⟩
    cases hparse.symm.trans (ObjectRef.parse_eq_ok_iff.2 ho)
  | ok o =>
    have ho := ObjectRef.parse_eq_ok_iff.1 hparse
    refine Leads.of_call ?_ fun st' hnext => hst.savePolicy hnext
    rw [hst.exists_savePolicy, h.fits_policy hs ho]
    exact and_congr_left fun _ => and_congr_right fun _ => (and_iff_left ⟨o, ho⟩).symm

theorem wellFormed_iff : s.WellFormed ↔
    (InTurn (fun before g =>
      ((g.id ≠ some "" ∧ Text.isBlank g.name = false) ∧ ∀ k ∈ before, k.Apart g) ∧
        g.Follows before) s.groups ∧
      ∀ m ∈ s.memberships, m.member ≠ "" ∧ ∃ g ∈ s.groups, g.id = some m.group) ∧
    InTurn (fun before p =>
      (p.holder.id ≠ "" ∧ p.action ≠ "" ∧ ∃ o : ObjectRef, o.WrittenAs p.object) ∧
        ∀ q ∈ before, q.Apart p) s.policies := by
  rw [inTurn_and, inTurn_apart, inTurn_apart]
  constructor
  · rintro ⟨hnamed, hgroups, hparents, hmemberships, hpolicies, hapart⟩
    exact ⟨⟨⟨⟨hnamed, hgroups⟩, hparents⟩, hmemberships⟩, hpolicies, hapart⟩
  · rintro ⟨⟨⟨⟨hnamed, hgroups⟩, hparents⟩, hmemberships⟩, hpolicies, hapart⟩
    exact ⟨hnamed, hgroups, hparents, hmemberships, hpolicies, hapart⟩

/-- Well-formed documents and no others are taken up by empty stores, which then hold their
records. -/
theorem Fresh.leads_steps (h : s.Fresh fresh) :
    Leads .empty (s.steps fresh now) s.WellFormed fun st =>
    st.Holds (storedGroups fresh now s.groups) s.memberships
      (storedPolicies fresh s.groups.length s.policies) := by
  have hgroups := (h.leads_groups now).append fun st hst => h.leads_memberships hst
  exact (hgroups.append fun st hst => h.leads_policies hst).congr wellFormed_iff.symm fun _ hst =>
    hst

end Seed
end AccessControl
