import AccessControl.Proofs.Indices
import AccessControl.Proofs.Stores.Runs

/-! # The slots of the key store

A key is on record in the slot of its issuer and its identifier. A call about one slot reads nothing
but the key there, and leaves all other slots as they are.
-/
namespace AccessControl

namespace KeyStore

variable {s s' : KeyStore} {k : Key} {id : String} {slot : KeySlot}

theorem save_eq_ok_iff : s.save k = .ok (id, s') ↔
    k.id = some id ∧ s.keys.get? ⟨k.issuerId, id⟩ = none ∧
      s' = ⟨s.keys.insert ⟨k.issuerId, id⟩ k⟩ := by
  rw [save]
  cases k.id with
  | none => exact ⟨nofun, nofun⟩
  | some id' =>
    simp only [Result.guard_eq_ok_iff, Bool.not_eq_true, Dict.contains_eq_false_iff,
      Except.ok.injEq, Prod.mk.injEq, Option.some.injEq]
    constructor
    · rintro ⟨hfree, rfl, rfl⟩
      exact ⟨rfl, hfree, rfl⟩
    · rintro ⟨rfl, hfree, rfl⟩
      exact ⟨hfree, rfl, rfl⟩

theorem retrieve_eq_ok_iff : s.retrieve slot = .ok k ↔ s.keys.get? slot = some k := by
  rw [retrieve]
  cases s.keys.get? slot <;> simp

theorem remove_eq_ok_iff :
    s.remove slot = .ok s' ↔ (∃ k, s.keys.get? slot = some k) ∧ s' = ⟨s.keys.erase slot⟩ := by
  rw [remove, ← Dict.contains_iff]
  cases s.keys.contains slot with
  | false => exact ⟨nofun, nofun⟩
  | true => simp [eq_comm]

def Filed (s : KeyStore) : Prop :=
  ∀ slot k, s.keys.get? slot = some k → k.issuerId = slot.issuerId ∧ k.id = some slot.keyId

theorem filed_empty : Filed .empty := by
  intro slot k hk
  cases hk

theorem Filed.save (h : s.Filed) (hs : s.save k = .ok (id, s')) : s'.Filed := by
  obtain ⟨hid, -, rfl⟩ := save_eq_ok_iff.1 hs
  intro slot found hfound
  rcases Dict.get?_insert_eq_some_iff.1 hfound with ⟨rfl, rfl⟩ | ⟨-, hfound⟩
  · exact ⟨rfl, hid⟩
  · exact h slot found hfound

theorem Filed.remove (h : s.Filed) (hs : s.remove slot = .ok s') : s'.Filed := by
  obtain ⟨-, rfl⟩ := remove_eq_ok_iff.1 hs
  intro other found hfound
  exact h other found (Dict.get?_erase_eq_some_iff.1 hfound).2

/-- Keys are recorded where they belong and moved nowhere else. -/
theorem Filed.after {st : Stores} (h : st.keys.Filed) (c : StoreCall) :
    (st.after c).keys.Filed := by
  rcases st.after_eq_or_serve c with he | ⟨reply, hserve⟩
  · rwa [he]
  · generalize st.after c = st' at hserve
    cases c with
    | saveKey k =>
      obtain ⟨⟨_, keys⟩, hsave, he⟩ := Result.bind_eq_ok_iff.1 hserve
      cases he
      exact h.save hsave
    | removeKey slot =>
      obtain ⟨keys, hremove, he⟩ := Result.bind_eq_ok_iff.1 hserve
      cases he
      exact h.remove hremove
    | policies _ _ | removePolicies _ =>
      cases hserve
      exact h
    | _ =>
      obtain ⟨_, _, he⟩ := Result.bind_eq_ok_iff.1 hserve
      cases he
      exact h

theorem filed_afterAll (calls : List StoreCall) : (Stores.empty.afterAll calls).keys.Filed :=
  Stores.afterAll_induction (P := fun st => st.keys.Filed) filed_empty
    (fun _ c h => h.after c) calls

end KeyStore

namespace StoreCall

def Concerns (slot : KeySlot) : StoreCall → Prop
  | .saveKey k => k.issuerId = slot.issuerId ∧ k.id = some slot.keyId
  | .key other | .removeKey other => other = slot
  | _ => False

variable {c : StoreCall} {slot : KeySlot}

/-- What is in the slot decides the reply and what is in the slot afterwards, and nothing else
changes. -/
theorem Concerns.effect (h : c.Concerns slot) :
    ∃ f : Option Key → Result c.Reply × Option Key, ∀ st : Stores,
    st.reply c = (f (st.keys.keys.get? slot)).1 ∧
    (st.after c).keys.keys.get? slot = (f (st.keys.keys.get? slot)).2 ∧
    ∀ other, other ≠ slot → (st.after c).keys.keys.get? other = st.keys.keys.get? other := by
  cases c with
  | saveKey k =>
    obtain ⟨hissuer, hid⟩ := h
    refine ⟨fun found => found.elim (.ok slot.keyId, some k)
      fun old => (.error (.conflict s!"key {slot.keyId}"), some old), fun st => ?_⟩
    simp only [Stores.reply, Stores.after, Stores.serve, KeyStore.save, hid, hissuer, Dict.contains]
    cases hfound : st.keys.keys.get? slot with
    | none =>
      exact ⟨rfl, Dict.get?_insert_self _ _ _, fun other hother => Dict.get?_insert_ne _ hother _⟩
    | some old => exact ⟨rfl, hfound, fun _ _ => rfl⟩
  | key other =>
    cases h
    refine ⟨fun found => (found.elim (.error (KeyStore.missing slot)) .ok, found), fun st => ?_⟩
    rw [Stores.after_query rfl]
    refine ⟨?_, rfl, fun _ _ => rfl⟩
    rw [Stores.reply, Stores.serve, KeyStore.retrieve]
    cases st.keys.keys.get? slot <;> rfl
  | removeKey other =>
    cases h
    refine ⟨fun found => (found.elim (.error (KeyStore.missing slot)) fun _ => .ok (), none),
      fun st => ?_⟩
    cases hfound : st.keys.keys.get? slot with
    | none =>
      have hserve : st.serve (.removeKey slot) = .error (KeyStore.missing slot) := by
        have hmissing : st.keys.keys.contains slot = false := Dict.contains_eq_false_iff.2 hfound
        rw [Stores.serve, KeyStore.remove, hmissing]
        rfl
      rw [Stores.reply, Stores.after, hserve]
      exact ⟨rfl, hfound, fun _ _ => rfl⟩
    | some old =>
      have hserve :
          st.serve (.removeKey slot) = .ok ((), { st with keys := ⟨st.keys.keys.erase slot⟩ }) := by
        rw [Stores.serve, KeyStore.remove_eq_ok_iff.2 ⟨⟨old, hfound⟩, rfl⟩]
        rfl
      rw [Stores.reply, Stores.after, hserve]
      exact ⟨rfl, Dict.get?_erase_self _ _, fun other hother => Dict.get?_erase_ne _ hother⟩
  | _ => exact h.elim

end StoreCall
end AccessControl
