import AccessControl.Proofs.PolicyStore.Contents
import AccessControl.Proofs.Seed.Applying

/-! # Objects and their texts

A text names an object when something stands before its first colon and something after it. The
object is written as that text and no other text names it, so whatever was granted on it is found by
its text. An object that was not read from a text may have none: its type may be empty or hold a
colon itself.
-/
namespace AccessControl

namespace ObjectRef

variable {o : ObjectRef} {s : String}

def IsName (s : String) : Prop :=
  ∃ before after, s.toList = before ++ ':' :: after ∧ ':' ∉ before ∧ before ≠ [] ∧ after ≠ []

theorem text_eq (o : ObjectRef) : o.text = o.objectType ++ ":" ++ o.objectId := by
  simp [text, ToString.toString]

theorem WrittenAs.text_eq_self (h : o.WrittenAs s) : o.text = s := by
  rw [text_eq, h.text]

theorem writtenAs_text_iff :
    o.WrittenAs o.text ↔ o.objectType ≠ "" ∧ ':' ∉ o.objectType.toList ∧ o.objectId ≠ "" :=
  ⟨fun h => ⟨h.objectType, h.colon, h.objectId⟩, fun ⟨htype, hcolon, hid⟩ =>
    ⟨htype, hid, hcolon, o.text_eq⟩⟩

/-- A text names an object exactly when something stands before its first colon and something after
it. -/
theorem exists_writtenAs_iff : (∃ o : ObjectRef, o.WrittenAs s) ↔ IsName s := by
  constructor
  · rintro ⟨o, h⟩
    refine ⟨o.objectType.toList, o.objectId.toList, ?_, h.colon, ?_, ?_⟩
    · simp [h.text]
    · exact fun he => h.objectType (String.toList_eq_nil_iff.1 he)
    · exact fun he => h.objectId (String.toList_eq_nil_iff.1 he)
  · rintro ⟨before, after, hs, hcolon, hbefore, hafter⟩
    refine ⟨⟨String.ofList before, String.ofList after⟩, ?_, ?_, ?_, ?_⟩
    · simpa using hbefore
    · simpa using hafter
    · simpa using hcolon
    · rw [← String.toList_inj, hs]
      simp

theorem parse_eq_error_iff {e : AuthError} : parse s = .error e ↔
    ¬IsName s ∧ e = .malformedEntity s!"object '{s}' is not of the form type:id" := by
  have hok : (∃ o, parse s = .ok o) ↔ IsName s := by
    simp only [parse_eq_ok_iff, exists_writtenAs_iff]
  rw [← hok, parse]
  split
  · simp
  · simp [eq_comm]

end ObjectRef

namespace PolicyStore

variable {s : PolicyStore} {p : Policy} {holder : Principal} {text action : String}

def grantOn (s : PolicyStore) (holder : Principal) (text action : String) :
    Result (Option Policy) := do
  let o ← ObjectRef.parse text
  return (s.retrieve holder (some o)).grantFor o action

/-- Asking by text finds the stored policies on the object that is written so. -/
theorem Valid.grantOn_eq_some_iff (h : Valid s) : s.grantOn holder text action = .ok (some p) ↔
    p ∈ s.policies.values ∧ p.object.WrittenAs text ∧ p.holder = holder ∧ p.action = action := by
  rw [grantOn, Result.bind_eq_ok_iff]
  simp only [ObjectRef.parse_eq_ok_iff, pure, Except.pure, Except.ok.injEq, h.grantFor_eq_some_iff]
  constructor
  · rintro ⟨o, ho, hp, hright, -⟩
    rw [Policy.object, Policy.holder, Policy.action, hright]
    exact ⟨hp, ho, rfl, rfl⟩
  · rintro ⟨hp, ho, rfl, rfl⟩
    exact ⟨p.object, ho, hp, rfl, fun o' ho' => (Option.some.inj ho').symm⟩

end PolicyStore

namespace Seed

variable {s : Seed} {fresh : Nat → String} {now : Instant} {st st' : Stores} {steps : List Step}
  {step : Step} {c : StoreCall} {p : Policy} {id : String}

def isAddition : StoreCall → Bool
  | .saveGroup _ | .assign .. | .savePolicy _ => true
  | _ => false

def Adds (steps : List Step) : Prop := ∀ step ∈ steps, ∀ c, step.call = .ok c → isAddition c = true

def Saves (steps : List Step) (p : Policy) : Prop := ∃ step ∈ steps, step.call = .ok (.savePolicy p)

theorem mem_steps : step ∈ s.steps fresh now ↔
    (∃ i g, s.groups[i]? = some g ∧ step = groupStep fresh now i g) ∨
      (∃ m ∈ s.memberships, step = membershipStep m) ∨
      ∃ i p, s.policies[i]? = some p ∧ step = policyStep fresh (s.groups.length + i) p := by
  simp only [steps, List.mem_append, List.mem_mapIdx, List.mem_map,
    List.getElem?_eq_some_iff, or_assoc]
  grind

theorem call_policyStep {i : Nat} {r : SeedPolicy} : (policyStep fresh i r).call = .ok c ↔
    ∃ o : ObjectRef, o.WrittenAs r.object ∧ c = .savePolicy ⟨fresh i, ⟨r.holder, o, r.action⟩⟩ := by
  simp only [← ObjectRef.parse_eq_ok_iff]
  rw [policyStep]
  cases ObjectRef.parse r.object with
  | error e => simp
  | ok o => simp [eq_comm]

theorem adds_steps (s : Seed) (fresh : Nat → String) (now : Instant) :
    Adds (s.steps fresh now) := by
  intro step hstep c hc
  rcases mem_steps.1 hstep with ⟨i, g, -, rfl⟩ | ⟨m, -, rfl⟩ | ⟨i, r, -, rfl⟩
  · cases hc
    rfl
  · cases hc
    rfl
  · obtain ⟨o, -, rfl⟩ := call_policyStep.1 hc
    rfl

theorem saves_steps_iff :
    Saves (s.steps fresh now) p ↔ p ∈ storedPolicies fresh s.groups.length s.policies := by
  rw [mem_storedPolicies]
  constructor
  · rintro ⟨step, hstep, hc⟩
    rcases mem_steps.1 hstep with ⟨i, g, -, rfl⟩ | ⟨m, -, rfl⟩ | ⟨i, r, hr, rfl⟩
    · cases hc
    · cases hc
    · obtain ⟨o, ho, he⟩ := call_policyStep.1 hc
      cases he
      exact ⟨i, r, hr, o, ho, rfl⟩
  · rintro ⟨i, r, hr, o, ho, rfl⟩
    exact ⟨_, mem_steps.2 (.inr (.inr ⟨i, r, hr, rfl⟩)), call_policyStep.2 ⟨o, ho, rfl⟩⟩

theorem get?_policies_of_addition (hc : isAddition c = true) (hnext : st.next c = .ok st') :
    st'.policies.policies.get? id = some p ↔
      st.policies.policies.get? id = some p ∨ id = p.id ∧ c = .savePolicy p := by
  cases c with
  | saveGroup g =>
    obtain ⟨groups, -, rfl⟩ := Stores.next_saveGroup.1 hnext
    simp
  | assign member g =>
    obtain ⟨groups, -, rfl⟩ := Stores.next_assign.1 hnext
    simp
  | savePolicy q =>
    obtain ⟨policies, hsave, rfl⟩ := Stores.next_savePolicy.1 hnext
    rw [PolicyStore.get?_policies_save hsave, or_comm]
    simp only [StoreCall.savePolicy.injEq]
    grind
  | _ => cases hc

/-- Following goes on behind a step whose call succeeds, and ends before any other. -/
theorem follow_cons_cases (st : Stores) (step : Step) (rest : List Step) :
    (∃ c st', step.call = .ok c ∧ st.next c = .ok st' ∧
      follow st (step :: rest) = follow st' rest) ∨
      ∃ e, follow st (step :: rest) = (.error e, st) := by
  cases hcall : step.call with
  | error e => exact .inr ⟨.refused step.record e, by simp only [follow, hcall]⟩
  | ok c =>
    cases hserve : st.serve c with
    | error e => exact .inr ⟨.refused step.record e, by simp only [follow, hcall, hserve]⟩
    | ok served =>
      refine .inl ⟨c, served.2, rfl, ?_, by simp only [follow, hcall, hserve]⟩
      rw [Stores.next, hserve]
      rfl

theorem sound_follow (h : st.Sound) (steps : List Step) : (follow st steps).2.Sound := by
  induction steps generalizing st with
  | nil => exact h
  | cons step rest ih =>
    rcases follow_cons_cases st step rest with ⟨c, st', -, hnext, hfollow⟩ | ⟨e, hfollow⟩
    · rw [hfollow, ← Stores.after_of_next hnext]
      exact ih (h.after c)
    · rwa [hfollow]

/-- Steps that only put in records leave no policies but those from before and those that they
save. -/
theorem get?_policies_follow (hadds : Adds steps)
    (hp : (follow st steps).2.policies.policies.get? id = some p) :
    st.policies.policies.get? id = some p ∨ id = p.id ∧ Saves steps p := by
  induction steps generalizing st with
  | nil => exact .inl hp
  | cons step rest ih =>
    rcases follow_cons_cases st step rest with ⟨c, st', hcall, hnext, hfollow⟩ | ⟨e, hfollow⟩
    · rw [hfollow] at hp
      rcases ih (fun s hs => hadds s (List.mem_cons_of_mem _ hs)) hp with hp | ⟨hid, s, hs, hc⟩
      · rcases (get?_policies_of_addition (hadds step (List.mem_cons_self ..) c hcall) hnext).1
          hp with hp | ⟨hid, rfl⟩
        · exact .inl hp
        · exact .inr ⟨hid, step, List.mem_cons_self .., hcall⟩
      · exact .inr ⟨hid, s, List.mem_cons_of_mem _ hs, hc⟩
    · rw [hfollow] at hp
      exact .inl hp

/-- When no step is refused, every record could be read, and what was saved on the way is there at
the end. -/
theorem get?_policies_of_follow_ok (hadds : Adds steps) (hok : follow st steps = (.ok (), st')) :
    (∀ step ∈ steps, ∃ c, step.call = .ok c) ∧
      ∀ id p, st.policies.policies.get? id = some p ∨ id = p.id ∧ Saves steps p →
        st'.policies.policies.get? id = some p := by
  induction steps generalizing st with
  | nil =>
    cases hok
    refine ⟨nofun, ?_⟩
    rintro id p (hp | ⟨-, step, hstep, -⟩)
    · exact hp
    · cases hstep
  | cons step rest ih =>
    rcases follow_cons_cases st step rest with ⟨c, mid, hcall, hnext, hfollow⟩ | ⟨e, hfollow⟩
    · rw [hfollow] at hok
      obtain ⟨hcalls, hstored⟩ := ih (fun s hs => hadds s (List.mem_cons_of_mem _ hs)) hok
      have hmid : ∀ {id p}, mid.policies.policies.get? id = some p ↔
          st.policies.policies.get? id = some p ∨ id = p.id ∧ c = .savePolicy p :=
        get?_policies_of_addition (hadds step (List.mem_cons_self ..) c hcall) hnext
      refine ⟨List.forall_mem_cons.2 ⟨⟨c, hcall⟩, hcalls⟩, ?_⟩
      rintro id p (hp | ⟨hid, s, hs, hc⟩)
      · exact hstored id p (.inl (hmid.2 (.inl hp)))
      · rcases List.mem_cons.1 hs with rfl | hs
        · cases hcall.symm.trans hc
          exact hstored id p (.inl (hmid.2 (.inr ⟨hid, rfl⟩)))
        · exact hstored id p (.inr ⟨hid, s, hs, hc⟩)
    · cases hfollow.symm.trans hok

/-- After a seed was taken up, each of its policies is found by the text of its object. -/
theorem grantOn_of_apply (h : st.Sound) (happly : s.apply fresh now st = (.ok (), st'))
    {r : SeedPolicy} (hr : r ∈ s.policies) :
    ∃ p, st'.policies.grantOn r.holder r.object r.action = .ok (some p) ∧
      p.object.text = r.object := by
  obtain ⟨hcalls, hstored⟩ := get?_policies_of_follow_ok (adds_steps s fresh now) happly
  obtain ⟨i, hi⟩ := List.getElem?_of_mem hr
  have hstep : policyStep fresh (s.groups.length + i) r ∈ s.steps fresh now :=
    mem_steps.2 (.inr (.inr ⟨i, r, hi, rfl⟩))
  obtain ⟨c, hc⟩ := hcalls _ hstep
  obtain ⟨o, ho, rfl⟩ := call_policyStep.1 hc
  have hsound : st'.Sound := by
    have hfollow := sound_follow h (s.steps fresh now)
    rwa [← Seed.apply, happly] at hfollow
  refine ⟨⟨fresh (s.groups.length + i), ⟨r.holder, o, r.action⟩⟩, ?_, ho.text_eq_self⟩
  rw [hsound.policies.grantOn_eq_some_iff, hsound.policies.mem_values_iff]
  exact ⟨hstored _ _ (.inr ⟨rfl, _, hstep, hc⟩), ho, rfl, rfl⟩

/-- A policy that came with a seed is found by the text of its object, even if the seed was not
taken up to its end. -/
theorem grantOn_of_new (h : st.Sound) (hp : p ∈ (s.apply fresh now st).2.policies.policies.values)
    (hnew : p ∉ st.policies.policies.values) :
    (s.apply fresh now st).2.policies.grantOn p.holder p.object.text p.action = .ok (some p) := by
  have hsound : (s.apply fresh now st).2.Sound := sound_follow h (s.steps fresh now)
  rw [h.policies.mem_values_iff] at hnew
  rw [hsound.policies.grantOn_eq_some_iff]
  refine ⟨hp, ?_, rfl, rfl⟩
  rcases get?_policies_follow (adds_steps s fresh now) (hsound.policies.mem_values_iff.1 hp) with
    hold | ⟨-, hsaves⟩
  · exact absurd hold hnew
  · obtain ⟨i, r, -, o, ho, hpolicy⟩ := mem_storedPolicies.1 (saves_steps_iff.1 hsaves)
    have hobject : p.object = o := by rw [hpolicy, Policy.object]
    rw [hobject, ho.text_eq_self]
    exact ho

end Seed

/-- A text is read as an object exactly when something stands before its first colon and something
after it, and then the object is written as that text, so no other text is read as it. An object is
read back from its own text exactly when its type is not empty and without a colon and its
identifier is not empty. So in all stores that calls reach, a policy whose object was read from a
text is found by the text of its object, and so are the policies that a seed puts there: all of them
if it is taken up, and else those that it came to. -/
theorem ObjectRef.text_names_one_object :
    (∀ s, (∃ o, parse s = .ok o) ↔ IsName s) ∧
    (∀ s e, parse s = .error e ↔
      ¬IsName s ∧ e = .malformedEntity s!"object '{s}' is not of the form type:id") ∧
    (∀ s o, parse s = .ok o → o.text = s ∧ ∀ s', parse s' = .ok o → s' = s) ∧
    (∀ o : ObjectRef, parse o.text = .ok o ↔
      o.objectType ≠ "" ∧ ':' ∉ o.objectType.toList ∧ o.objectId ≠ "") ∧
    ∀ calls : List StoreCall, let st := Stores.empty.afterAll calls
      (∀ s, ∀ p ∈ st.policies.policies.values, parse s = .ok p.object →
        p.object.text = s ∧ st.policies.grantOn p.holder p.object.text p.action = .ok (some p)) ∧
      ∀ (seed : Seed) fresh now result st', seed.apply fresh now st = (result, st') →
        (result = .ok () → ∀ r ∈ seed.policies,
          ∃ p, st'.policies.grantOn r.holder r.object r.action = .ok (some p) ∧
            p.object.text = r.object) ∧
        ∀ p ∈ st'.policies.policies.values, p ∉ st.policies.policies.values →
          st'.policies.grantOn p.holder p.object.text p.action = .ok (some p) := by
  have htext : ∀ {s o}, parse s = .ok o → o.text = s := fun h => (parse_eq_ok_iff.1 h).text_eq_self
  refine ⟨?_, fun s e => parse_eq_error_iff, ?_, ?_, ?_⟩
  · intro s
    simp only [parse_eq_ok_iff, exists_writtenAs_iff]
  · exact fun s o h => ⟨htext h, fun s' h' => (htext h').symm.trans (htext h)⟩
  · exact fun o => parse_eq_ok_iff.trans writtenAs_text_iff
  · intro calls st
    have hsound : st.Sound := Stores.sound_afterAll calls
    refine ⟨fun s p hp hparse => ?_, ?_⟩
    · refine ⟨htext hparse, hsound.policies.grantOn_eq_some_iff.2 ⟨hp, ?_, rfl, rfl⟩⟩
      rw [htext hparse]
      exact parse_eq_ok_iff.1 hparse
    · intro seed fresh now result st' happly
      refine ⟨?_, fun p hp hnew => ?_⟩
      · rintro rfl r hr
        exact Seed.grantOn_of_apply hsound happly hr
      · have hafter : st' = (seed.apply fresh now st).2 := by rw [happly]
        subst hafter
        exact Seed.grantOn_of_new hsound hp hnew

end AccessControl
