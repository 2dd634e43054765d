import AccessControl.Proofs.Decision.Inheritance
import AccessControl.Proofs.Program.Faults

/-! # Deleting a group

A deletion takes two calls, and what the first has done stays done when the second is not served.
Such a deletion cannot be repeated: the group is gone while its policies are still there. Every
other deletion that fails leaves no trace.
-/
namespace AccessControl

variable {s : Stores} {groups : GroupStore} {k : Conditions} {ctx : Context} {id : GroupId}
  {w : World} {e : AuthError}

def deletionCalls (id : GroupId) : List StoreCall :=
  [.deleteGroup id, .removePolicies (Group.principal id)]

theorem deleteGroup_strict (id : GroupId) : (deleteGroup id).Strict (· ∈ deletionCalls id) := by
  refine Program.Strict.bind (.ask (List.mem_cons_self ..)) ?_
  intro _
  exact .ask (List.mem_cons_of_mem _ (List.mem_cons_self ..))

/-- Neither call of a deletion can be misled by a fault. -/
theorem honest_deletion (n : Nat) (c : StoreCall) (hc : c ∈ (deleteGroup id).calls s) :
    (k.schedule n c).Honest c := by
  rcases List.mem_cons.1 ((deleteGroup_strict id).made_of_mem hc) with rfl | hc
  · exact ⟨fun _ => rfl, fun _ _ => rfl⟩
  · cases List.mem_singleton.1 hc
    exact ⟨fun _ => rfl, fun _ _ => rfl⟩

theorem reply_deleteGroup_of_ok (h : s.groups.delete id = .ok groups) :
    s.reply (.deleteGroup id) = .ok () ∧
      s.after (.deleteGroup id) = { s with groups := groups } := by
  simp only [Stores.reply, Stores.after, Stores.serve, h]
  exact ⟨rfl, rfl⟩

theorem reply_deleteGroup_of_error (h : s.groups.delete id = .error e) :
    s.reply (.deleteGroup id) = .error e ∧ s.after (.deleteGroup id) = s := by
  simp only [Stores.reply, Stores.after, Stores.serve, h]
  exact ⟨rfl, rfl⟩

theorem calls_deleteGroup_of_ok (h : s.groups.delete id = .ok groups) :
    (deleteGroup id).calls s = deletionCalls id := by
  have hcalls : (deleteGroup id).calls s = _ :: _ := rfl
  rw [hcalls, (reply_deleteGroup_of_ok h).1]
  rfl

theorem calls_deleteGroup_of_error (h : s.groups.delete id = .error e) :
    (deleteGroup id).calls s = [.deleteGroup id] := by
  have hcalls : (deleteGroup id).calls s = _ :: _ := rfl
  rw [hcalls, (reply_deleteGroup_of_error h).1]
  rfl

theorem run_deleteGroup_of_ok (h : s.groups.delete id = .ok groups) :
    (deleteGroup id).run s = (.ok (s.policies.removeHeldBy (Group.principal id)).1,
      { s with
        groups := groups
        policies := (s.policies.removeHeldBy (Group.principal id)).2 }) := by
  obtain ⟨hreply, hafter⟩ := reply_deleteGroup_of_ok h
  refine (Program.run_call _).trans ?_
  rw [hreply, hafter]
  rfl

theorem run_deleteGroup_of_error (h : s.groups.delete id = .error e) :
    (deleteGroup id).run s = (.error e, s) := by
  obtain ⟨hreply, hafter⟩ := reply_deleteGroup_of_error h
  refine (Program.run_call _).trans ?_
  rw [hreply, hafter]
  rfl

/-- Under whatever conditions, a deletion does nothing, or only its first half, or all of it; and it
only answers when it has done all of it. -/
theorem deleteGroup_cases (k : Conditions) (ctx : Context) (id : GroupId) (w : World) :
    let out := Engine.deleteGroup k ctx id w
    (out.2.stores = w.stores ∧ ∀ n, out.1 ≠ some (.ok n)) ∨
    ∃ groups, w.stores.groups.delete id = .ok groups ∧
      ((out.2.stores = { w.stores with groups := groups } ∧ ∀ n, out.1 ≠ some (.ok n)) ∨
        out.2.stores =
          { w.stores with
            groups := groups
            policies := (w.stores.policies.removeHeldBy (Group.principal id)).2 } ∧
        out.1 = some (.ok (w.stores.policies.removeHeldBy (Group.principal id)).1)) := by
  rcases Program.perform_ask_cases k ctx (.deleteGroup id)
    (fun _ => Program.ask (.removePolicies (Group.principal id)))
    w with hrefused | ⟨_, w', hserve, hperform⟩
  · exact .inl hrefused
  · obtain ⟨groups, hdelete, he⟩ := Result.bind_eq_ok_iff.1 hserve
    have hdeleted : w'.stores = { w.stores with groups := groups } :=
      (congrArg Prod.snd (Except.ok.inj he)).symm
    refine .inr ⟨groups, hdelete, ?_⟩
    have hout : Engine.deleteGroup k ctx id w =
        Program.make k ctx (.removePolicies (Group.principal id)) w' :=
      hperform.trans (Program.perform_ask ..)
    simp only [hout]
    rcases Program.make_cases k ctx (.removePolicies (Group.principal id)) w' with
      ⟨hstores, hfailed⟩ | ⟨_, _, hremove, hstores, hanswer⟩
    · exact .inl ⟨hstores.trans hdeleted, hfailed⟩
    · cases hremove
      rw [hdeleted] at hstores hanswer
      exact .inr ⟨hstores, hanswer⟩

theorem sound_deleteGroup (h : w.stores.Sound) (k : Conditions) (ctx : Context) (id : GroupId) :
    (Engine.deleteGroup k ctx id w).2.stores.Sound := by
  rcases deleteGroup_cases k ctx id w with ⟨he, -⟩ | ⟨groups, hdelete, ⟨he, -⟩ | ⟨he, -⟩⟩
  · rwa [he]
  · rw [he]
    exact ⟨h.groups.change (.delete hdelete), h.policies⟩
  · rw [he]
    exact ⟨h.groups.change (.delete hdelete), h.policies.removeHeldBy _⟩

/-- The group is deleted, and then something that the caller hears of stands in the way of removing
its policies. -/
def HalfDone (k : Conditions) (ctx : Context) (id : GroupId) (w : World) : Prop :=
  (∃ groups, w.stores.groups.delete id = .ok groups) ∧
  ∃ o, k.blocked ctx w.calls w.now (deletionCalls id) = some ([.deleteGroup id], o) ∧ o ≠ .silence

def Deletes (ctx : Context) (id : GroupId) (w : World) : Prop :=
  ∃ n, (Engine.deleteGroup .calm ctx id w).1 = some (.ok n) ∧
    (Engine.deleteGroup .calm ctx id w).2.stores.groups.groups.get? id = none ∧
    ∀ i p, (Engine.deleteGroup .calm ctx id w).2.stores.policies.policies.get? i = some p →
      p.holder ≠ Group.principal id

/-- A deletion that fails has changed nothing, so that it deletes the group when it is repeated in
peace after a failure that may pass, if the group could be deleted at all. -/
def Repeatable (k : Conditions) (ctx : Context) (id : GroupId) (w : World) : Prop :=
  ∀ e, (Engine.deleteGroup k ctx id w).1 = some (.error e) →
    (Engine.deleteGroup k ctx id w).2.stores = w.stores ∧
    (e.isRetryable = true → (∃ groups, w.stores.groups.delete id = .ok groups) →
      ∀ ctx' now started, ctx'.isDone now = false →
        Deletes ctx' id ⟨(Engine.deleteGroup k ctx id w).2.stores, now, started⟩)

theorem deletes_of_calm {ctx : Context} (hctx : ctx.isDone w.now = false)
    (hvalid : w.stores.policies.Valid) (h : w.stores.groups.delete id = .ok groups) :
    Deletes ctx id w := by
  obtain ⟨hresult, hstores⟩ := Program.perform_calm hctx (deleteGroup id)
  rw [run_deleteGroup_of_ok h] at hresult hstores
  refine ⟨_, hresult, ?_, ?_⟩
  · obtain ⟨g, _, _, _, rfl⟩ := GroupStore.delete_eq_ok_iff.1 h
    rw [Engine.deleteGroup, hstores]
    exact Dict.get?_erase_self _ _
  · intro i p hp
    rw [Engine.deleteGroup, hstores] at hp
    exact (hvalid.get?_removeHeldBy.1 hp).2

theorem deleteGroup_of_halfDone (h : HalfDone k ctx id w) :
    ∃ e groups, (Engine.deleteGroup k ctx id w).1 = some (.error e) ∧
      w.stores.groups.delete id = .ok groups ∧
      (Engine.deleteGroup k ctx id w).2.stores = { w.stores with groups := groups } := by
  obtain ⟨⟨groups, hdelete⟩, o, hblocked, ho⟩ := h
  rw [← calls_deleteGroup_of_ok hdelete] at hblocked
  obtain ⟨hresult, hstores⟩ := (deleteGroup_strict id).perform_of_blocked honest_deletion hblocked
  have hafter : w.stores.afterAll [.deleteGroup id] = { w.stores with groups := groups } :=
    (reply_deleteGroup_of_ok hdelete).2
  rw [hafter] at hstores
  cases o with
  | late => exact ⟨_, groups, hresult, hdelete, hstores⟩
  | silence => exact absurd rfl ho
  | failure e => exact ⟨e, groups, hresult, hdelete, hstores⟩

/-- A deletion that fails has changed nothing unless it is half done: an obstacle to the first call
leaves the group, and one to the second call makes the deletion half done. -/
theorem stores_of_not_halfDone (h : ¬HalfDone k ctx id w)
    (he : (Engine.deleteGroup k ctx id w).1 = some (.error e)) :
    (Engine.deleteGroup k ctx id w).2.stores = w.stores := by
  cases hblocked : k.blocked ctx w.calls w.now ((deleteGroup id).calls w.stores) with
  | none =>
    obtain ⟨hresult, hstores⟩ := Program.perform_of_free honest_deletion hblocked
    cases hdelete : w.stores.groups.delete id with
    | ok groups =>
      rw [run_deleteGroup_of_ok hdelete] at hresult
      cases hresult.symm.trans he
    | error e' =>
      rw [run_deleteGroup_of_error hdelete] at hstores
      exact hstores
  | some found =>
    obtain ⟨served, o⟩ := found
    obtain ⟨hresult, hstores⟩ := (deleteGroup_strict id).perform_of_blocked honest_deletion hblocked
    obtain ⟨c, rest, hsplit, _⟩ := Conditions.split_of_blocked hblocked
    cases hdelete : w.stores.groups.delete id with
    | ok groups =>
      rw [calls_deleteGroup_of_ok hdelete] at hblocked hsplit
      rcases served with - | ⟨a, - | ⟨b, more⟩⟩
      · exact hstores
      · obtain ⟨rfl, _⟩ := List.cons.inj hsplit
        refine absurd ⟨⟨groups, hdelete⟩, o, hblocked, ?_⟩ h
        rintro rfl
        cases hresult.symm.trans he
      · simp [deletionCalls] at hsplit
    | error e' =>
      rw [calls_deleteGroup_of_error hdelete] at hsplit
      rcases served with - | ⟨a, more⟩
      · exact hstores
      · simp at hsplit

/-- After every run of the stores, a deletion that fails has changed nothing and can be repeated,
except for one that is half done. That one has deleted the group, all policies are still there, and
repeating it finds no group. -/
theorem deleteGroup_repeatable_iff (calls : List StoreCall) (now : Millis) (started : Nat)
    (k : Conditions) (ctx : Context) (id : GroupId) :
    let w : World := ⟨Stores.empty.afterAll calls, now, started⟩
    let failed := Engine.deleteGroup k ctx id w
    (Repeatable k ctx id w ↔ ¬HalfDone k ctx id w) ∧
    (HalfDone k ctx id w → ∃ e groups, failed.1 = some (.error e) ∧
      w.stores.groups.delete id = .ok groups ∧
      failed.2.stores = { w.stores with groups := groups } ∧
      ∀ ctx' now started, ctx'.isDone now = false →
        (Engine.deleteGroup .calm ctx' id ⟨failed.2.stores, now, started⟩).1 =
          some (.error (.notFound s!"group {id}"))) := by
  intro w failed
  have hvalid : w.stores.policies.Valid := PolicyStore.valid_afterAll calls
  refine ⟨⟨?_, ?_⟩, ?_⟩
  · intro hrepeatable hhalf
    obtain ⟨e, groups, he, hdelete, hstores⟩ := deleteGroup_of_halfDone hhalf
    have hsame : { w.stores with groups := groups } = w.stores :=
      hstores.symm.trans (hrepeatable e he).1
    have hgroups : groups = w.stores.groups := congrArg Stores.groups hsame
    have hagain := GroupStore.delete_of_delete hdelete
    rw [hgroups, hdelete] at hagain
    cases hagain
  · intro hnot e he
    have hstores := stores_of_not_halfDone hnot he
    refine ⟨hstores, ?_⟩
    rintro _ ⟨groups, hdelete⟩ ctx' now' started' hctx
    rw [hstores]
    exact deletes_of_calm hctx hvalid hdelete
  · intro hhalf
    obtain ⟨e, groups, he, hdelete, hstores⟩ := deleteGroup_of_halfDone hhalf
    refine ⟨e, groups, he, hdelete, hstores, ?_⟩
    intro ctx' now' started' hctx
    have hcalm :=
      (Program.perform_calm (w := ⟨failed.2.stores, now', started'⟩) hctx (deleteGroup id)).1
    have hagain : failed.2.stores.groups.delete id = .error (.notFound s!"group {id}") := by
      rw [hstores]
      exact GroupStore.delete_of_delete hdelete
    rw [run_deleteGroup_of_error hagain] at hcalm
    exact hcalm

def policyOutage : Conditions where
  schedule _ c :=
    match c with
    | .removePolicies _ => ⟨some 0, some (.storeUnavailable "down"), .faithful⟩
    | _ => .none
  horizon := none

def samplePublishers : List StoreCall :=
  [.saveGroup ⟨"ops", "root", none, "Operations", "", [], ⟨0, 0⟩, ⟨0, 0⟩⟩,
    .savePolicy ⟨"p1", ⟨Group.principal "ops", ⟨"channel", "news"⟩, "publish"⟩⟩]

/-- The deletion of the publishers ends with an error that may pass, but they are gone and their
policy is not. -/
theorem deleteGroup_not_repeatable :
    ¬Repeatable policyOutage .background "ops" ⟨Stores.empty.afterAll samplePublishers, 0, 0⟩ := by
  intro h
  have hfails : (Engine.deleteGroup policyOutage .background "ops"
      ⟨Stores.empty.afterAll samplePublishers, 0, 0⟩).1 =
        some (.error (.storeUnavailable "down")) := by decide
  obtain ⟨hstores, _⟩ := h _ hfails
  have hgone := congrArg (fun s : Stores => s.groups.groups.contains "ops") hstores
  revert hgone
  decide

end AccessControl
