import AccessControl.Proofs.Identity.Lifecycle
import AccessControl.Proofs.Stores.History

/-! # Keys that were replaced

The key on record in a slot is the one that was recorded there last and not removed since. A token
of an API key is accepted while any key is on record in the slot of its own, so it is accepted for
another one when its own was removed and that one has taken its place.
-/
namespace AccessControl

def Key.BelongsIn (k : Key) (slot : KeySlot) : Prop :=
  k.issuerId = slot.issuerId ∧ k.id = some slot.keyId

/-- The key was recorded in a slot in the course of a run, and the slot was not emptied after
that. -/
def Key.RecordedLast (k : Key) (slot : KeySlot) (calls : List StoreCall) : Prop :=
  k.BelongsIn slot ∧ Stands (· = .saveKey k) (· = .removeKey slot) (Stores.empty.successes calls)

namespace KeyStore

variable {k : Key} {slot : KeySlot} {st st' : Stores} {c : StoreCall} {reply : c.Reply}

/-- A slot gets its key by a call that records it, and loses it by a call that removes it. -/
theorem get?_of_serve (hk : k.BelongsIn slot) (h : st.serve c = .ok (reply, st')) :
    st'.keys.keys.get? slot = some k ↔
      c = .saveKey k ∨ st.keys.keys.get? slot = some k ∧ c ≠ .removeKey slot := by
  cases c with
  | saveKey saved =>
    obtain ⟨⟨id, keys⟩, hsave, he⟩ := Result.bind_eq_ok_iff.1 h
    cases he
    obtain ⟨hid, hfree, rfl⟩ := save_eq_ok_iff.1 hsave
    show (st.keys.keys.insert _ saved).get? slot = some k ↔ _
    rw [Dict.get?_insert_eq_some_iff, StoreCall.saveKey.injEq]
    constructor
    · rintro (⟨-, hsame⟩ | ⟨-, hold⟩)
      · exact .inl hsame
      · exact .inr ⟨hold, nofun⟩
    · rintro (rfl | ⟨hold, -⟩)
      · obtain ⟨issuerId, keyId⟩ := slot
        obtain ⟨rfl, hkeyId⟩ := hk
        cases hid.symm.trans hkeyId
        exact .inl ⟨rfl, rfl⟩
      · refine .inr ⟨?_, hold⟩
        rintro rfl
        cases hfree.symm.trans hold
  | removeKey other =>
    obtain ⟨keys, hremove, he⟩ := Result.bind_eq_ok_iff.1 h
    cases he
    obtain ⟨-, rfl⟩ := remove_eq_ok_iff.1 hremove
    show (st.keys.keys.erase other).get? slot = some k ↔ _
    rw [Dict.get?_erase_eq_some_iff, ne_eq, ne_eq, StoreCall.removeKey.injEq, eq_comm (a := other)]
    constructor
    · exact fun ⟨hne, hold⟩ => .inr ⟨hold, hne⟩
    · rintro (hsave | ⟨hold, hne⟩)
      · cases hsave
      · exact ⟨hne, hold⟩
  | policies _ _ | removePolicies _ =>
    cases h
    simp
  | _ =>
    obtain ⟨_, _, he⟩ := Result.bind_eq_ok_iff.1 h
    cases he
    simp

/-- A slot holds the key that was recorded there last, unless it was emptied since. -/
theorem retrieve_afterAll_iff (calls : List StoreCall) :
    (Stores.empty.afterAll calls).keys.retrieve slot = .ok k ↔ k.RecordedLast slot calls := by
  have hstands (hk : k.BelongsIn slot) := Stores.stands_successes_iff
    (P := fun st => st.keys.keys.get? slot = some k) (s := .empty) nofun
      (fun _ _ _ _ h => get?_of_serve hk h) calls
  rw [retrieve_eq_ok_iff]
  constructor
  · intro hfound
    have hk : k.BelongsIn slot := filed_afterAll calls slot k hfound
    exact ⟨hk, (hstands hk).1 hfound⟩
  · rintro ⟨hk, hlast⟩
    exact (hstands hk).2 hlast

end KeyStore

namespace IdentityService

variable {s : IdentityService} {w : World} {token : String} {moment : Instant} {i : Identity}
  {k : Key}

/-- The bearer of a token is taken for the bearer of an API key. -/
def AcceptsApiKey (s : IdentityService) (w : World) (token : String) (moment : Instant)
    (i : Identity) : Prop :=
  ((s.identify token moment).perform .calm .background w).1 = some (.ok i) ∧ i.keyType = .api

/-- If a token is accepted as that of an API key, then its key is on record and the identity is that
of this record. -/
def AcceptsRecordedOnly (s : IdentityService) (w : World) (token : String) (moment : Instant) :
    Prop :=
  ∀ i, s.AcceptsApiKey w token moment i → ∃ k slot, s.tokenizer.parse token moment = .ok k ∧
    k.BelongsIn slot ∧
    w.stores.keys.retrieve slot = .ok k ∧ i = Identity.ofKey k

/-- Nothing but the slot of the key in a token is looked at, and not what is there. -/
theorem acceptsApiKey_iff :
    s.AcceptsApiKey w token moment i ↔ ∃ k slot r, s.tokenizer.parse token moment = .ok k ∧
    k.keyType = .api ∧ k.BelongsIn slot ∧ w.stores.keys.retrieve slot = .ok r ∧
      i = Identity.ofKey k := by
  constructor
  · rintro ⟨hanswer, htype⟩
    rw [Program.perform_background] at hanswer
    cases hparse : s.tokenizer.parse token moment with
    | error err =>
      rw [run_identify_of_error hparse] at hanswer
      cases hanswer
    | ok k =>
      by_cases hrecord : k.OnRecord w.stores.keys
      · rw [run_identify_of_record hparse hrecord] at hanswer
        cases hanswer
        obtain ⟨id, hid, hfound⟩ := hrecord htype
        obtain ⟨r, hr⟩ := Option.ne_none_iff_exists'.1 hfound
        exact ⟨k, ⟨k.issuerId, id⟩, r, rfl, htype, ⟨rfl, hid⟩,
          KeyStore.retrieve_eq_ok_iff.2 hr, rfl⟩
      · obtain ⟨reason, hrun⟩ := run_identify_of_missing hparse hrecord
        rw [hrun] at hanswer
        cases hanswer
  · rintro ⟨k, ⟨issuerId, keyId⟩, r, hparse, htype, ⟨rfl, hid⟩, hr, rfl⟩
    rw [KeyStore.retrieve_eq_ok_iff] at hr
    have hrecord : k.OnRecord w.stores.keys := fun _ => ⟨keyId, hid, hr ▸ Option.some_ne_none r⟩
    exact ⟨identify_bearer hparse hrecord, htype⟩

/-- After every run a token of an API key is accepted exactly while some key is on record in the
slot of its own: the one that was recorded there last and not removed since. It is the key of the
token, unless that one was replaced; then the token is accepted for a key that is not on record. -/
theorem accepts_recorded_only_iff (calls : List StoreCall) (now : Millis) (started : Nat)
    (s : IdentityService) (token : String) (moment : Instant) :
    let w : World := ⟨Stores.empty.afterAll calls, now, started⟩
    (s.AcceptsRecordedOnly w token moment ↔ ∀ k slot r, s.tokenizer.parse token moment = .ok k →
      k.keyType = .api →
      k.BelongsIn slot → r.RecordedLast slot calls → r = k) ∧
    (∀ i, s.AcceptsApiKey w token moment i ↔
      ∃ k slot, ∃ r : Key, s.tokenizer.parse token moment = .ok k ∧
      k.keyType = .api ∧ k.BelongsIn slot ∧ r.RecordedLast slot calls ∧ i = Identity.ofKey k) ∧
    ∀ slot r, w.stores.keys.retrieve slot = .ok r ↔ r.RecordedLast slot calls := by
  intro w
  have hrecord : ∀ slot r, w.stores.keys.retrieve slot = .ok r ↔ r.RecordedLast slot calls :=
    fun slot r => KeyStore.retrieve_afterAll_iff calls
  have haccepts : ∀ i, s.AcceptsApiKey w token moment i ↔
      ∃ k slot, ∃ r : Key, s.tokenizer.parse token moment = .ok k ∧
      k.keyType = .api ∧ k.BelongsIn slot ∧ r.RecordedLast slot calls ∧ i = Identity.ofKey k := by
    intro i
    simp only [acceptsApiKey_iff, hrecord]
  refine ⟨⟨?_, ?_⟩, haccepts, hrecord⟩
  · rintro honly k ⟨_, _⟩ r hparse htype ⟨rfl, hid⟩ hlast
    obtain ⟨k', ⟨_, _⟩, hparse', ⟨rfl, hid'⟩, hfound, -⟩ :=
      honly _ ((haccepts _).2 ⟨k, _, r, hparse, htype, ⟨rfl, hid⟩, hlast, rfl⟩)
    cases hparse.symm.trans hparse'
    cases hid.symm.trans hid'
    rw [← hrecord, hfound] at hlast
    exact (Except.ok.inj hlast).symm
  · intro hsame i haccepted
    obtain ⟨k, slot, r, hparse, htype, hslot, hlast, rfl⟩ := (haccepts i).1 haccepted
    obtain rfl := hsame k slot r hparse htype hslot hlast
    exact ⟨r, slot, hparse, hslot, (hrecord slot r).2 hlast, rfl⟩

def lastingApiRequest : KeyRequest :=
  ⟨"ann", "ann", some "ann@example.com", some "k1", some .api, ⟨1767225600, 0⟩, none⟩

def replacement : Key := ⟨some "k1", "ann", "bob", none, .api, ⟨1767225600, 0⟩, none⟩

/-- The token of a key that was removed is refused, until another key is recorded in its slot. -/
theorem removed_key_accepted_again :
    ∃ k token, sampleService.tokenizer.issue lastingApiRequest = .ok (k, token) ∧
    let remove : List StoreCall := [.saveKey k, .removeKey ⟨"ann", "k1"⟩]
    let removed : World := ⟨Stores.empty.afterAll remove, 0, 0⟩
    let replaced : World := ⟨Stores.empty.afterAll (remove ++ [.saveKey replacement]), 0, 0⟩
    replacement ≠ k ∧ replaced.stores.keys.retrieve ⟨"ann", "k1"⟩ = .ok replacement ∧
    ∀ moment, (∀ i, ¬sampleService.AcceptsApiKey removed token moment i) ∧
      sampleService.AcceptsApiKey replaced token moment (Identity.ofKey k) ∧
      ¬sampleService.AcceptsRecordedOnly replaced token moment := by
  obtain ⟨token, hissue⟩ : ∃ token,
      sampleService.tokenizer.issue lastingApiRequest =
        .ok (Key.ofRequest lastingApiRequest .api, token) :=
    ⟨_, Tokenizer.issue_eq_ok_iff.2 ⟨by decide, by decide, nofun, .api, rfl, rfl, rfl⟩⟩
  refine ⟨_, token, hissue, ?_⟩
  intro remove removed replaced
  have hparse : ∀ moment k, sampleService.tokenizer.parse token moment = .ok k ↔
      k = Key.ofRequest lastingApiRequest .api := by
    have hnever : (Key.ofRequest lastingApiRequest .api).expiresAt = none := rfl
    intro moment k
    rw [Tokenizer.parse_issued_eq_ok_iff (r := lastingApiRequest)
      ⟨by decide, by decide⟩ nofun hissue, hnever]
    exact and_iff_left nofun
  have hempty : removed.stores.keys.retrieve ⟨"ann", "k1"⟩ =
    .error (KeyStore.missing ⟨"ann", "k1"⟩) := by decide
  have hfound : replaced.stores.keys.retrieve ⟨"ann", "k1"⟩ = .ok replacement := by decide
  have hother : replacement ≠ Key.ofRequest lastingApiRequest .api := by decide
  refine ⟨hother, hfound, fun moment => ⟨?_, ?_⟩⟩
  · intro i haccepted
    obtain ⟨k, ⟨_, _⟩, r, hk, -, ⟨rfl, hid⟩, hr, -⟩ := acceptsApiKey_iff.1 haccepted
    cases (hparse moment k).1 hk
    cases hid
    cases hempty.symm.trans hr
  · have haccepted : sampleService.AcceptsApiKey replaced token moment
        (Identity.ofKey (Key.ofRequest lastingApiRequest .api)) :=
      acceptsApiKey_iff.2
        ⟨_, ⟨"ann", "k1"⟩, _, (hparse moment _).2 rfl, rfl, ⟨rfl, rfl⟩, hfound, rfl⟩
    refine ⟨haccepted, fun honly => ?_⟩
    obtain ⟨k, ⟨_, _⟩, hk, ⟨rfl, hid⟩, hr, -⟩ := honly _ haccepted
    cases (hparse moment k).1 hk
    cases hid
    exact hother (Except.ok.inj (hfound.symm.trans hr))

end IdentityService
end AccessControl
