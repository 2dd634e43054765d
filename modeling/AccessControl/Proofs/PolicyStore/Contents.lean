import AccessControl.Proofs.PolicySet.Elements
import AccessControl.Proofs.PolicyStore.Changes
import AccessControl.Proofs.PolicyStore.Retrieval

/-! # The policy store as a list

Without its indices the store is the list of its policies: to ask for those of a subject is to look
through the list, and to change the store is to put a policy in or to leave some out. The indices
follow from the list, so two ways of removing the same policies leave the same store.
-/
namespace AccessControl.PolicyStore

variable {s s' : PolicyStore} {p q : Policy} {r : Right} {holder : Principal}
  {object : Option ObjectRef}

theorem Catalogued.mem_values_iff (h : Catalogued s) :
    p ∈ s.policies.values ↔ s.policies.get? p.id = some p := by
  rw [Dict.mem_values_iff]
  constructor
  · rintro ⟨id, hp⟩
    rwa [h.id_of_get hp]
  · exact fun hp => ⟨p.id, hp⟩

theorem Catalogued.eq_of_right (h : Catalogued s) (hp : p ∈ s.policies.values)
    (hq : q ∈ s.policies.values) (hr : p.right = q.right) : p = q := by
  rw [h.mem_values_iff] at hp hq
  rw [h.eq_of_right_eq hp hq hr, hq] at hp
  exact (Option.some.inj hp).symm

/-- A policy store is determined by its policies: the indices follow from them. -/
theorem Valid.ext (h : Valid s) (h' : Valid s')
    (hsame : ∀ id p, s'.policies.get? id = some p ↔ s.policies.get? id = some p) : s' = s := by
  have hpolicies : s'.policies = s.policies :=
    Dict.ext_get? fun id => Option.ext fun p => hsame id p
  have hbyRight : s'.byRight = s.byRight := by
    refine Dict.ext_get? fun r => Option.ext fun id => ?_
    simp only [h'.byRight_iff, h.byRight_iff, hsame]
  have hbyHolder : s'.byHolder = s.byHolder := by
    refine h'.filled.ext h.filled fun holder id => ?_
    have hheld : id ∈ s'.heldBy holder ↔ id ∈ s.heldBy holder := by
      simp only [h'.heldBy_iff, h.heldBy_iff, hsame]
    exact hheld
  cases s
  cases s'
  simp only at hpolicies hbyRight hbyHolder
  rw [hpolicies, hbyRight, hbyHolder]

/-- No two policies of the list give the same right. -/
theorem Catalogued.pairwise_right (h : Catalogued s) :
    s.policies.values.Pairwise fun p q => p.right ≠ q.right := by
  have hkeys := s.policies.keys_sorted
  rw [h.keys_eq, List.pairwise_map] at hkeys
  refine hkeys.imp_of_mem fun {p q} hp hq hbefore hr => ?_
  rw [h.eq_of_right hp hq hr] at hbefore
  exact Dict.Before.irrefl _ hbefore

/-- The policies of the list that a subject holds, all of them or those on one object. -/
def matching (s : PolicyStore) (holder : Principal) (object : Option ObjectRef) : List Policy :=
  s.policies.values.filter fun p => p.holder = holder ∧ ∀ o ∈ object, p.object = o

theorem mem_matching_iff : p ∈ s.matching holder object ↔
    p ∈ s.policies.values ∧ p.holder = holder ∧ ∀ o ∈ object, p.object = o := by
  rw [matching, List.mem_filter, decide_eq_true_eq]

theorem Valid.filterMap_heldBy (h : Valid s) (holder : Principal) :
    (s.heldBy holder).filterMap s.policies.get? = s.policies.values.filter fun p =>
      p.holder = holder := by
  rw [h.heldBy_eq, List.filterMap_map]
  calc (s.policies.values.filter fun p => p.holder = holder).filterMap (s.policies.get? ∘ (·.id))
      = (s.policies.values.filter fun p => p.holder = holder).filterMap some :=
        List.filterMap_congr fun p hp => h.mem_values_iff.1 (List.mem_filter.1 hp).1
    _ = s.policies.values.filter fun p => p.holder = holder := List.filterMap_some

/-- The index leads to what looking through the list finds. -/
theorem Valid.retrieve_eq (h : Valid s) (holder : Principal) (object : Option ObjectRef) :
    s.retrieve holder object = PolicySet.ofList (s.matching holder object) := by
  rw [retrieve, h.filterMap_heldBy, List.filter_filter, matching]
  congr 1
  refine List.filter_congr fun p _ => ?_
  rw [Bool.eq_iff_iff, Bool.and_eq_true, and_comm, decide_eq_true_eq, decide_eq_true_eq]
  refine and_congr_right fun _ => ?_
  cases object with
  | none => simp
  | some o => simp [eq_comm (a := o)]

theorem Valid.toList_retrieve_perm (h : Valid s) (holder : Principal) (object : Option ObjectRef) :
    (s.retrieve holder object).toList.Perm (s.matching holder object) := by
  rw [h.retrieve_eq]
  exact PolicySet.toList_ofList_perm _

/-- A right is a holder, an object and an action, and the holder is the same in all of the set. -/
theorem Valid.pairwise_retrieve (h : Valid s) (holder : Principal) (object : Option ObjectRef) :
    (s.retrieve holder object).toList.Pairwise fun p q =>
      ¬(p.object = q.object ∧ p.action = q.action) := by
  rw [(h.toList_retrieve_perm holder object).pairwise_iff
    fun hpq hqp => hpq ⟨hqp.1.symm, hqp.2.symm⟩]
  refine (h.pairwise_right.filter _).imp_of_mem fun {p q} hp hq hright hsame => hright ?_
  have hholder : p.holder = q.holder := by
    rw [(mem_matching_iff.1 hp).2.1, (mem_matching_iff.1 hq).2.1]
  obtain ⟨_, ⟨_, _, _⟩⟩ := p
  obtain ⟨_, ⟨_, _, _⟩⟩ := q
  simp only [Policy.holder, Policy.object, Policy.action] at hholder hsame
  rw [hholder, hsame.1, hsame.2]

/-- The set finds the only policy of the list that gives the right, if it is in the set at all. -/
theorem Valid.grantFor_eq_some_iff (h : Valid s) {o : ObjectRef} {action : String} :
    (s.retrieve holder object).grantFor o action = some p ↔
      p ∈ s.policies.values ∧ p.right = ⟨holder, o, action⟩ ∧ ∀ o' ∈ object, o' = o := by
  have hcandidate : ∀ p, p ∈ (s.matching holder object).filter (fun p => p.object = o) ∧
    (p.action == action) = true ↔
      p ∈ s.policies.values ∧ p.right = ⟨holder, o, action⟩ ∧ ∀ o' ∈ object, o' = o := by
    intro p
    rw [List.mem_filter, mem_matching_iff, decide_eq_true_eq, beq_iff_eq]
    constructor
    · rintro ⟨⟨⟨hp, rfl, hfilter⟩, rfl⟩, rfl⟩
      exact ⟨hp, rfl, fun o' ho' => (hfilter o' ho').symm⟩
    · rintro ⟨hp, hr, hfilter⟩
      have hobject : p.object = o := by rw [Policy.object, hr]
      exact ⟨⟨⟨hp, by rw [Policy.holder, hr], fun o' ho' => hobject.trans (hfilter o' ho').symm⟩,
        hobject⟩, by rw [Policy.action, hr]⟩
  rw [h.retrieve_eq, PolicySet.grantFor, PolicySet.on_ofList]
  constructor
  · intro hfound
    exact (hcandidate p).1 ⟨List.mem_of_find?_eq_some hfound, by simpa using List.find?_some hfound⟩
  · intro hp
    obtain ⟨hmem, haction⟩ := (hcandidate p).2 hp
    have hfound :
        (((s.matching holder object).filter fun p => p.object = o).find? fun p =>
        p.action == action).isSome =
        true := List.find?_isSome.2 ⟨p, hmem, haction⟩
    obtain ⟨q, hq⟩ := Option.isSome_iff_exists.1 hfound
    have hqp := (hcandidate q).1 ⟨List.mem_of_find?_eq_some hq, by simpa using List.find?_some hq⟩
    rw [hq, h.eq_of_right hqp.1 hp.1 (hqp.2.1.trans hp.2.1.symm)]

def removeEach (s : PolicyStore) : List Policy → Result PolicyStore
  | [] => .ok s
  | p :: rest => do (← s.remove p).removeEach rest

/-- Policies whose rights are there and different can be removed in turn. What is left are the
policies with other rights. -/
theorem Valid.removeEach_of_stored (h : Valid s) {ps : List Policy}
    (hnodup : (ps.map (·.right)).Nodup)
    (hstored : ∀ r ∈ ps.map (·.right), ∃ q ∈ s.policies.values, q.right = r) :
    ∃ s', s.removeEach ps = .ok s' ∧ Valid s' ∧ ∀ id q, s'.policies.get? id = some q ↔
      s.policies.get? id = some q ∧ q.right ∉ ps.map (·.right) := by
  induction ps generalizing s with
  | nil => exact ⟨s, rfl, h, fun id q => by simp⟩
  | cons p rest ih =>
    rw [List.map_cons, List.nodup_cons] at hnodup
    obtain ⟨hnew, hrest⟩ := hnodup
    obtain ⟨stored, hmem, hright⟩ := hstored p.right (List.mem_cons_self ..)
    obtain ⟨s₁, hs₁, -⟩ := h.remove_of_stored (h.mem_values_iff.1 hmem) hright
    have h₁ : Valid s₁ := h.remove hs₁
    have hleft : ∀ {id q}, s₁.policies.get? id = some q ↔
        s.policies.get? id = some q ∧ q.right ≠ p.right := h.get?_policies_remove hs₁
    have hstill : ∀ r ∈ rest.map (·.right), ∃ q ∈ s₁.policies.values, q.right = r := by
      intro r hr
      obtain ⟨q, hq, rfl⟩ := hstored r (List.mem_cons_of_mem _ hr)
      rw [h.mem_values_iff] at hq
      exact ⟨q, h₁.mem_values_iff.2 (hleft.2 ⟨hq, fun he => hnew (he ▸ hr)⟩), rfl⟩
    obtain ⟨s', hs', h', hget⟩ := ih h₁ hrest hstill
    refine ⟨s', ?_, h', fun id q => ?_⟩
    · rw [removeEach, hs₁]
      exact hs'
    · rw [hget, hleft, List.map_cons, List.mem_cons, not_or, and_assoc]

/-- In whatever order the policies of a subject are removed, the store is the one without them. -/
theorem Valid.removeEach_heldBy (h : Valid s) {ps : List Policy}
    (hps : (ps.map (·.right)).Perm ((s.matching holder none).map (·.right))) :
    s.removeEach ps = .ok (s.removeHeldBy holder).2 := by
  have hmem : ∀ r, r ∈ ps.map (·.right) ↔
      ∃ p, (p ∈ s.policies.values ∧ p.holder = holder) ∧ p.right = r := by
    intro r
    rw [hps.mem_iff, List.mem_map]
    simp [mem_matching_iff]
  have hnodup : (ps.map (·.right)).Nodup :=
    hps.nodup_iff.2 (List.pairwise_map.2 (h.pairwise_right.filter _))
  have hstored : ∀ r ∈ ps.map (·.right), ∃ p ∈ s.policies.values, p.right = r := by
    intro r hr
    obtain ⟨p, ⟨hp, -⟩, hright⟩ := (hmem r).1 hr
    exact ⟨p, hp, hright⟩
  obtain ⟨s', hs', h', hget⟩ := h.removeEach_of_stored hnodup hstored
  rw [hs', (h.removeHeldBy holder).ext h' fun id q => ?_]
  rw [hget, h.get?_removeHeldBy]
  refine and_congr_right fun hq => not_congr ?_
  obtain rfl := h.id_of_get hq
  rw [← h.mem_values_iff] at hq
  rw [hmem]
  constructor
  · rintro ⟨p, ⟨-, rfl⟩, hright⟩
    rw [Policy.holder, ← hright, Policy.holder]
  · exact fun hholder => ⟨q, ⟨hq, hholder⟩, rfl⟩

theorem Valid.values_removeHeldBy (h : Valid s) (holder : Principal) :
    (s.removeHeldBy holder).2.policies.values = s.policies.values.filter fun p =>
      p.holder ≠ holder :=
  Dict.values_eq_filter fun id p => by rw [h.get?_removeHeldBy, decide_eq_true_eq]

/-- Other subjects are answered as before. -/
theorem Valid.retrieve_removeHeldBy (h : Valid s) {other : Principal} (hne : other ≠ holder)
    (object : Option ObjectRef) :
    (s.removeHeldBy holder).2.retrieve other object = s.retrieve other object := by
  rw [(h.removeHeldBy holder).retrieve_eq, h.retrieve_eq, matching, matching, h.values_removeHeldBy,
    List.filter_filter]
  congr 1
  refine List.filter_congr fun p _ => ?_
  rw [Bool.eq_iff_iff, Bool.and_eq_true, decide_eq_true_eq, decide_eq_true_eq]
  refine and_iff_left_of_imp fun hp => ?_
  rw [hp.1]
  exact hne

/-- A policy that was just saved is the only one with its right, so it goes alone. -/
theorem Valid.remove_of_save (h : Valid s) (hs : s.save p = .ok s') : s'.remove p = .ok s := by
  have h' : Valid s' := h.save hs
  have hget : ∀ {id q}, s'.policies.get? id = some q ↔
      (id = p.id ∧ q = p) ∨ s.policies.get? id = some q :=
    get?_policies_save hs
  obtain ⟨s₂, hs₂, -⟩ := h'.remove_of_stored (hget.2 (.inl ⟨rfl, rfl⟩)) rfl
  obtain ⟨-, -, hright, -⟩ := save_eq_ok_iff.1 hs
  rw [Dict.contains_eq_false_iff] at hright
  have hnew : ∀ {id q}, s.policies.get? id = some q → q.right ≠ p.right := by
    intro id q hq hr
    rw [← hr, h.byRight_iff.2 ⟨q, hq, rfl⟩] at hright
    cases hright
  rw [hs₂, h.ext (h'.remove hs₂) fun id q => ?_]
  rw [h'.get?_policies_remove hs₂, hget]
  constructor
  · rintro ⟨⟨-, rfl⟩ | hq, hr⟩
    · exact absurd rfl hr
    · exact hq
  · exact fun hq => ⟨.inr hq, hnew hq⟩

/-- After every run the store answers as the list of its policies. The set for a subject, or for a
subject and an object, has the policies of the list with these, no two of them on one object for one
action, so a look-up in the set finds the one policy with the right that is asked for. To remove all
policies of a subject is to remove each of them, in any order; the answer is their number, and other
subjects keep theirs. To remove a policy that was just saved gives back the store from before. -/
theorem answers_as_list (calls : List StoreCall) :
    let s := (Stores.empty.afterAll calls).policies
    (∀ holder object,
      (s.retrieve holder object).toList.Perm (s.matching holder object) ∧
      ((s.retrieve holder object).toList.Pairwise fun p q =>
        ¬(p.object = q.object ∧ p.action = q.action)) ∧
      ∀ o action p, (s.retrieve holder object).grantFor o action = some p ↔
        p ∈ s.policies.values ∧ p.right = ⟨holder, o, action⟩ ∧ ∀ o' ∈ object, o' = o) ∧
    (∀ holder,
      (∀ ps : List Policy, (ps.map (·.right)).Perm ((s.matching holder none).map (·.right)) →
        s.removeEach ps = .ok (s.removeHeldBy holder).2) ∧
      (s.removeHeldBy holder).1 = (s.matching holder none).length ∧
      (s.removeHeldBy holder).2.policies.values =
        s.policies.values.filter (fun p => p.holder ≠ holder) ∧
      ∀ other, other ≠ holder → ∀ object,
        (s.removeHeldBy holder).2.retrieve other object = s.retrieve other object) ∧
    ∀ p s', s.save p = .ok s' → s'.remove p = .ok s := by
  intro s
  have h : Valid s := valid_afterAll calls
  refine ⟨fun holder object =>
      ⟨h.toList_retrieve_perm holder object, h.pairwise_retrieve holder object,
        fun o action p => h.grantFor_eq_some_iff⟩,
    fun holder =>
      ⟨fun ps hps => h.removeEach_heldBy hps, ?_, h.values_removeHeldBy holder,
        fun other hne object => h.retrieve_removeHeldBy hne object⟩,
    fun p s' hs => h.remove_of_save hs⟩
  rw [h.removeHeldBy_fst, List.countP_eq_length_filter, matching]
  simp

end AccessControl.PolicyStore
