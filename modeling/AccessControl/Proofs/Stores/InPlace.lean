import AccessControl.InPlace
import AccessControl.Proofs.GroupStore.Forest
import AccessControl.Proofs.Stores.Refusals
import Mathlib.Data.List.Induction

/-! # Calls in place leave no trace when they fail

A call first looks whether it can be done, and writes only when nothing can fail any more. What is
taken out before it is known to be there was not there when the call fails. So a call in place
replies as the stores reply, and it leaves the stores after the call, which are those before it when
it fails.
-/
namespace AccessControl

namespace Dict

theorem erase_of_missing {κ β : Type} [Indexed κ] {d : Dict κ β} {k : κ} (h : d.get? k = none) :
    d.erase k = d := by
  apply ext_get?
  intro j
  by_cases hj : j = k
  · rw [hj, get?_erase_self, h]
  · exact get?_erase_ne d hj

end Dict

namespace InPlace

variable {σ τ α β ρ : Type} {s : σ}

theorem bind_assoc (m : InPlace σ α) (f : α → InPlace σ β) (g : β → InPlace σ ρ) :
    m >>= f >>= g = m >>= fun a => f a >>= g := by
  funext s
  have hleft : (m >>= f >>= g) s = bind (bind m f) g s := rfl
  have hright : (m >>= fun a => f a >>= g) s = bind m (fun a => bind (f a) g) s := rfl
  rw [hleft, hright, bind, bind, bind]
  obtain ⟨_ | _, _⟩ := m s <;> rfl

def whole (s : σ) (view : ρ → α × σ) : Result ρ → Result α × σ
  | .ok r => (.ok (view r).1, (view r).2)
  | .error e => (.error e, s)

theorem read_eq (f : σ → Result α) (s : σ) : read f s = whole s (fun a => (a, s)) (f s) := by
  have hread : read f s = (f s, s) := rfl
  rw [hread]
  cases f s <;> rfl

theorem read_map_eq (f : σ → Result α) (h : α → β) (s : σ) :
    read (fun s => h <$> f s) s = whole s (fun a => (h a, s)) (f s) := by
  have hread : read (fun s => h <$> f s) s = (h <$> f s, s) := rfl
  rw [hread]
  cases f s <;> rfl

theorem read_bind_eq {f : σ → Result α} {next : α → InPlace σ β} {g : α → Result ρ}
    {view : ρ → β × σ} (h : ∀ a, f s = .ok a → next a s = whole s view (g a)) :
    (read f >>= next) s = whole s view (f s >>= g) := by
  have hbind : (read f >>= next) s = bind (read f) next s := rfl
  rw [hbind, bind, read]
  cases hf : f s with
  | error e => rfl
  | ok a => exact h a hf

theorem take_bind_eq {f : σ → Option α} {without : σ → σ} {next : Option α → InPlace σ β} (s : σ) :
    (take f without >>= next) s = next (f s) (without s) := rfl

theorem guard_eq {c : Prop} [Decidable c] {e : AuthError} {m : InPlace σ β} {r : Result ρ}
    {view : ρ → β × σ} (h : m s = whole s view r) :
    (if c then fail e else m : InPlace σ β) s = whole s view (if c then .error e else r) := by
  by_cases hc : c
  · rw [if_pos hc, if_pos hc]
    rfl
  · rw [if_neg hc, if_neg hc, h]

end InPlace

open InPlace (whole bind_assoc read_eq read_map_eq read_bind_eq take_bind_eq guard_eq)

namespace GroupStore

theorem saveInPlace_eq (s : GroupStore) (g : Group) :
    saveInPlace g s = whole s (fun s' => (g, s')) (s.save g) := by
  apply read_bind_eq
  intro _ _
  apply guard_eq
  apply guard_eq
  apply read_bind_eq
  intro _ _
  rfl

/-- A stored group has the identifier that it is stored under, so that an update writes to its own
place. -/
theorem updateInPlace_eq {s : GroupStore} (h : s.Named) (g : Group) (now : Instant) :
    updateInPlace g now s = whole s id (s.update g now) := by
  apply read_bind_eq
  intro _ _
  apply read_bind_eq
  intro old hold
  have hid : old.id = g.id := h.id_of_get (get_eq_ok_iff.1 hold)
  apply guard_eq
  apply guard_eq
  dsimp only
  by_cases hmoved : old.parent ≠ g.parent
  · rw [if_pos hmoved, if_pos hmoved, moveInPlace, bind_assoc]
    apply read_bind_eq
    intro _ _
    rw [← hid, if_pos hmoved]
    rfl
  · rw [if_neg hmoved, if_neg hmoved, if_neg hmoved, ← hid]
    rfl

theorem deleteInPlace_eq (s : GroupStore) (id : GroupId) :
    deleteInPlace id s = whole s (fun s' => ((), s')) (s.delete id) := by
  apply read_bind_eq
  intro _ _
  apply guard_eq
  rfl

theorem assignInPlace_eq (s : GroupStore) (member : String) (id : GroupId) :
    assignInPlace member id s = whole s (fun s' => ((), s')) (s.assign member id) := by
  apply guard_eq
  apply read_bind_eq
  intro _ _
  rfl

theorem unassignInPlace_eq (s : GroupStore) (member : String) (id : GroupId) :
    unassignInPlace member id s = whole s (fun s' => ((), s')) (s.unassign member id) := by
  apply read_bind_eq
  intro _ _
  rfl

end GroupStore

namespace PolicyStore

theorem saveInPlace_eq (s : PolicyStore) (p : Policy) :
    saveInPlace p s = whole s (fun s' => (p, s')) (s.save p) := by
  apply read_bind_eq
  intro _ _
  apply guard_eq
  apply guard_eq
  rfl

theorem removeInPlace_eq (s : PolicyStore) (p : Policy) :
    removeInPlace p s = whole s (fun s' => ((), s')) (s.remove p) := by
  rw [removeInPlace, take_bind_eq, remove]
  cases hid : s.byRight.get? p.right with
  | none =>
    rw [Dict.erase_of_missing hid]
    rfl
  | some id => rfl

theorem removeHeldByInPlace_eq (s : PolicyStore) (holder : Principal) :
    removeHeldByInPlace holder s = whole s id (.ok (s.removeHeldBy holder)) := by
  rw [removeHeldByInPlace, take_bind_eq, removeHeldBy, heldBy, Dict.elements]
  cases s.byHolder.get? holder <;> rfl

end PolicyStore

namespace KeyStore

theorem saveInPlace_eq (s : KeyStore) (k : Key) : saveInPlace k s = whole s id (s.save k) := by
  rw [saveInPlace, save]
  cases k.id with
  | none => rfl
  | some id =>
    apply guard_eq
    rfl

theorem removeInPlace_eq (s : KeyStore) (slot : KeySlot) :
    removeInPlace slot s = whole s (fun s' => ((), s')) (s.remove slot) := by
  rw [removeInPlace, take_bind_eq, remove, Dict.contains]
  cases hslot : s.keys.get? slot with
  | none =>
    rw [Dict.erase_of_missing hslot]
    rfl
  | some k => rfl

end KeyStore

namespace StoreCall

variable {s : Stores} {c : StoreCall} {τ ρ : Type}

/-- A call on one of the stores that is made as a whole or not at all. -/
theorem within_eq {part : Stores → τ} {put : Stores → τ → Stores} {m : InPlace τ c.Reply}
    {view : ρ → c.Reply × τ} {attempt : Result ρ} (hput : put s (part s) = s)
    (hm : m (part s) = whole (part s) view attempt)
    (hserve : s.serve c = attempt >>= fun r => pure ((view r).1, put s (view r).2)) :
    m.within part put s = (s.reply c, s.after c) := by
  rw [InPlace.within, hm, Stores.reply, Stores.after, hserve]
  cases attempt with
  | ok r => rfl
  | error e =>
    rw [whole, hput]
    rfl

theorem onGroups_eq {m : InPlace GroupStore c.Reply} {view : ρ → c.Reply × GroupStore}
    {attempt : Result ρ} (hm : m s.groups = whole s.groups view attempt)
    (hserve : s.serve c = attempt >>= fun r => pure ((view r).1, { s with groups := (view r).2 })) :
    Stores.onGroups m s = (s.reply c, s.after c) :=
  within_eq rfl hm hserve

theorem onPolicies_eq {m : InPlace PolicyStore c.Reply} {view : ρ → c.Reply × PolicyStore}
    {attempt : Result ρ} (hm : m s.policies = whole s.policies view attempt)
    (hserve : s.serve c = attempt >>= fun r =>
      pure ((view r).1, { s with policies := (view r).2 })) :
    Stores.onPolicies m s = (s.reply c, s.after c) :=
  within_eq rfl hm hserve

theorem onKeys_eq {m : InPlace KeyStore c.Reply} {view : ρ → c.Reply × KeyStore}
    {attempt : Result ρ} (hm : m s.keys = whole s.keys view attempt)
    (hserve : s.serve c = attempt >>= fun r => pure ((view r).1, { s with keys := (view r).2 })) :
    Stores.onKeys m s = (s.reply c, s.after c) :=
  within_eq rfl hm hserve

/-- A call in place replies as the stores do, and leaves the stores after the call. -/
theorem inPlace_eq (h : s.groups.Named) (c : StoreCall) : c.inPlace s = (s.reply c, s.after c) := by
  cases c with
  | saveGroup g => exact onGroups_eq (c := .saveGroup g) (GroupStore.saveInPlace_eq _ g) rfl
  | updateGroup g now =>
    exact onGroups_eq (c := .updateGroup g now) (GroupStore.updateInPlace_eq h g now) rfl
  | deleteGroup id =>
    exact onGroups_eq (c := .deleteGroup id) (GroupStore.deleteInPlace_eq _ id) rfl
  | group id => exact onGroups_eq (c := .group id) (read_eq _ _) rfl
  | groupByName name => exact onGroups_eq (c := .groupByName name) (read_eq _ _) rfl
  | children id => exact onGroups_eq (c := .children id) (read_map_eq _ _ _) rfl
  | ancestors id => exact onGroups_eq (c := .ancestors id) (read_map_eq _ _ _) rfl
  | descendants id => exact onGroups_eq (c := .descendants id) (read_map_eq _ _ _) rfl
  | assign member id =>
    exact onGroups_eq (c := .assign member id) (GroupStore.assignInPlace_eq _ member id) rfl
  | unassign member id =>
    exact onGroups_eq (c := .unassign member id) (GroupStore.unassignInPlace_eq _ member id) rfl
  | memberships member => exact onGroups_eq (c := .memberships member) (read_map_eq _ _ _) rfl
  | members id => exact onGroups_eq (c := .members id) (read_eq _ _) rfl
  | savePolicy p => exact onPolicies_eq (c := .savePolicy p) (PolicyStore.saveInPlace_eq _ p) rfl
  | policies holder object => exact onPolicies_eq (c := .policies holder object) (read_eq _ _) rfl
  | removePolicy p =>
    exact onPolicies_eq (c := .removePolicy p) (PolicyStore.removeInPlace_eq _ p) rfl
  | removePolicies holder =>
    exact onPolicies_eq (c := .removePolicies holder)
      (PolicyStore.removeHeldByInPlace_eq _ holder) rfl
  | saveKey k => exact onKeys_eq (c := .saveKey k) (KeyStore.saveInPlace_eq _ k) rfl
  | key slot => exact onKeys_eq (c := .key slot) (read_eq _ _) rfl
  | removeKey slot => exact onKeys_eq (c := .removeKey slot) (KeyStore.removeInPlace_eq _ slot) rfl

end StoreCall

namespace Stores

variable {s : Stores} {c : StoreCall} {e : AuthError}

theorem after_of_refused (h : s.reply c = .error e) : s.after c = s := by
  rw [reply] at h
  rw [after]
  cases hserve : s.serve c with
  | error e => rfl
  | ok served =>
    rw [hserve] at h
    cases h

/-- A run of calls in place leaves what the run of calls leaves. -/
theorem inPlaceAll_eq (calls : List StoreCall) : empty.inPlaceAll calls = empty.afterAll calls := by
  -- from the right, because an update in place is one of the stores only where groups are under
  -- their identifiers
  induction calls using List.reverseRecOn with
  | nil => rfl
  | append_singleton calls c ih =>
    have hnamed : (empty.afterAll calls).groups.Named := (GroupStore.sound_afterAll calls).toNamed
    rw [inPlaceAll, List.foldl_concat, ← inPlaceAll, ih, StoreCall.inPlace_eq hnamed, afterAll,
      afterAll, List.foldl_concat]

/-- After any calls in place, one after another, a call that is refused leaves all stores exactly as
they were, and so does every query. The refusal is one of five kinds; and what the call leaves when
it is served are the stores after it, so that every run in place is a run of the stores. -/
theorem refused_leaves_no_trace (calls : List StoreCall) (c : StoreCall) :
    let s := empty.inPlaceAll calls
    (∀ e, (c.inPlace s).1 = .error e → (c.inPlace s).2 = s ∧
      ((∃ reason, e = .malformedEntity reason) ∨
      (∃ what, e = .conflict what) ∨ (∃ what, e = .notFound what) ∨
      (∃ group children members, e = .hasDependents group children members) ∨
      ∃ group reason, e = .corruptHierarchy group reason)) ∧
    (c.isQuery = true → (c.inPlace s).2 = s) ∧
    c.inPlace s = (s.reply c, s.after c) ∧ s = empty.afterAll calls := by
  intro s
  have hrun : s = empty.afterAll calls := inPlaceAll_eq calls
  have hnamed : s.groups.Named := hrun ▸ (GroupStore.sound_afterAll calls).toNamed
  have hcall : c.inPlace s = (s.reply c, s.after c) := StoreCall.inPlace_eq hnamed c
  rw [hcall]
  refine ⟨?_, fun hc => after_query hc, rfl, hrun⟩
  intro e he
  refine ⟨after_of_refused he, ?_⟩
  have hrefusal := s.refuses_reply c e he
  cases e with
  | malformedEntity reason => exact .inl ⟨_, rfl⟩
  | conflict what => exact .inr (.inl ⟨_, rfl⟩)
  | notFound what => exact .inr (.inr (.inl ⟨_, rfl⟩))
  | hasDependents group children members => exact .inr (.inr (.inr (.inl ⟨_, _, _, rfl⟩)))
  | corruptHierarchy group reason => exact .inr (.inr (.inr (.inr ⟨_, _, rfl⟩)))
  | _ => cases hrefusal

end Stores
end AccessControl
