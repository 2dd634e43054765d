import AccessControl.Proofs.Failures
import AccessControl.Proofs.Stores.Runs

/-! # Why the stores refuse a call

The caller is to blame for most refusals. Only a walk through the groups, and a look-up of groups
that an index names, can fail in another way, so what is known of these is known of every call.
-/
namespace AccessControl

def AuthError.blamesCaller : AuthError → Bool
  | malformedEntity _ | conflict _ | notFound _ | hasDependents .. => true
  | _ => false

def AuthError.isRefusal : AuthError → Bool
  | malformedEntity _ | conflict _ | notFound _ | hasDependents .. | corruptHierarchy .. => true
  | _ => false

theorem AuthError.isRefusal_of_blamesCaller {e : AuthError} (h : e.blamesCaller = true) :
    e.isRefusal = true := by
  cases e with
  | malformedEntity _ | conflict _ | notFound _ | hasDependents _ _ _ => rfl
  | _ => cases h

open Result (FailsOnlyWith)

namespace GroupStore

variable {P : AuthError → Prop} {s : GroupStore}

structure WalksFailOnlyWith (P : AuthError → Prop) (s : GroupStore) : Prop where
  ancestors : ∀ id, FailsOnlyWith P (s.ancestors id)
  retrieveAncestors : ∀ id, FailsOnlyWith P (s.retrieveAncestors id)
  retrieveDescendants : ∀ id, FailsOnlyWith P (s.retrieveDescendants id)
  retrieveChildren : ∀ id, FailsOnlyWith P (s.retrieveChildren id)
  retrieveMemberships : ∀ member, FailsOnlyWith P (s.retrieveMemberships member)

section Caller

variable (hP : ∀ e, e.blamesCaller = true → P e)
include hP

theorem failsOnlyWith_validate (g : Group) : FailsOnlyWith P g.validate :=
  .guard (hP _ rfl) (.guard (hP _ rfl) (.guard (hP _ rfl) (.ok _)))

theorem failsOnlyWith_get (s : GroupStore) (id : GroupId) : FailsOnlyWith P (s.get id) := by
  unfold get
  split
  · exact .ok _
  · exact .error (hP _ rfl)

theorem failsOnlyWith_getByName (s : GroupStore) (name : String) :
    FailsOnlyWith P (s.getByName name) := by
  unfold getByName
  split
  · exact failsOnlyWith_get hP s _
  · exact .error (hP _ rfl)

theorem failsOnlyWith_requireParent (s : GroupStore) (parent : Option GroupId) :
    FailsOnlyWith P (s.requireParent parent) := by
  cases parent with
  | none => exact .ok _
  | some p =>
    rw [requireParent]
    split
    · exact .ok _
    · exact .error (hP _ rfl)

theorem failsOnlyWith_save (s : GroupStore) (g : Group) : FailsOnlyWith P (s.save g) :=
  .bind (failsOnlyWith_validate hP g) fun _ => .guard (hP _ rfl) (.guard (hP _ rfl)
    (.bind (failsOnlyWith_requireParent hP s g.parent) fun _ => .ok _))

theorem failsOnlyWith_delete (s : GroupStore) (id : GroupId) : FailsOnlyWith P (s.delete id) :=
  .bind (failsOnlyWith_get hP s id) fun _ => .guard (hP _ rfl) (.ok _)

theorem failsOnlyWith_assign (s : GroupStore) (member : String) (id : GroupId) :
    FailsOnlyWith P (s.assign member id) :=
  .guard (hP _ rfl) (.bind (failsOnlyWith_get hP s id) fun _ => .ok _)

theorem failsOnlyWith_unassign (s : GroupStore) (member : String) (id : GroupId) :
    FailsOnlyWith P (s.unassign member id) :=
  .bind (failsOnlyWith_get hP s id) fun _ => .ok _

theorem failsOnlyWith_retrieveMembers (s : GroupStore) (id : GroupId) :
    FailsOnlyWith P (s.retrieveMembers id) :=
  .bind (failsOnlyWith_get hP s id) fun _ => .ok _

theorem WalksFailOnlyWith.checkMove (h : s.WalksFailOnlyWith P) (id : GroupId)
    (parent : Option GroupId) :
    FailsOnlyWith P (s.checkMove id parent) := by
  cases parent with
  | none => exact .ok _
  | some p =>
    exact .bind (failsOnlyWith_requireParent hP s _) fun _ => .bind (h.ancestors p) fun _ =>
      .guard (hP _ rfl) (.ok _)

theorem WalksFailOnlyWith.update (h : s.WalksFailOnlyWith P) (g : Group) (now : Instant) :
    FailsOnlyWith P (s.update g now) := by
  refine .bind (failsOnlyWith_validate hP g) fun _ => .bind (failsOnlyWith_get hP s _) fun _ =>
    .guard (hP _ rfl) (.guard (hP _ rfl) ?_)
  dsimp only
  split
  · exact .bind (h.checkMove hP g.id g.parent) fun _ => .ok _
  · exact .ok _

end Caller

/-- Walking upward fails, if at all, with an answer that a store may give, whatever the records are
like. -/
theorem refuses_climb (s : GroupStore) (start : GroupId) (steps : Nat) (seen : List GroupId)
    (cursor : Option GroupId) :
    FailsOnlyWith (fun e => e.isRefusal = true) (s.climb start steps seen cursor) := by
  induction steps generalizing seen cursor with
  | zero =>
    cases cursor with
    | none => exact .ok _
    | some p => exact .error rfl
  | succ steps ih =>
    cases cursor with
    | none => exact .ok _
    | some p =>
      rw [climb]
      refine .guard rfl ?_
      split
      · exact .error rfl
      · exact .bind (ih _ _) fun _ => .ok _

theorem refuses_collect (s : GroupStore) (start : GroupId) (found children : List GroupId) :
    FailsOnlyWith (fun e => e.isRefusal = true) (s.collect start found children) := by
  induction children generalizing found with
  | nil => exact .ok _
  | cons c rest ih => exact .guard rfl (ih _)

theorem refuses_spread (s : GroupStore) (start : GroupId) (steps : Nat)
    (found queue : List GroupId) :
    FailsOnlyWith (fun e => e.isRefusal = true) (s.spread start steps found queue) := by
  induction steps generalizing found queue with
  | zero => exact .ok _
  | succ steps ih =>
    cases queue with
    | nil => exact .ok _
    | cons g queue => exact .bind (refuses_collect s start found _) fun _ => ih _ _

theorem refuses_resolve (s : GroupStore) (ids : List GroupId) :
    FailsOnlyWith (fun e => e.isRefusal = true) (s.resolve ids) := by
  induction ids with
  | nil => exact .ok _
  | cons id rest ih =>
    rw [resolve]
    split
    · exact .bind ih fun _ => .ok _
    · exact .error rfl

theorem walks_refuse (s : GroupStore) : s.WalksFailOnlyWith fun e => e.isRefusal = true := by
  have hget := failsOnlyWith_get (fun _ => AuthError.isRefusal_of_blamesCaller) s
  have hancestors : ∀ id, FailsOnlyWith (fun e => e.isRefusal = true) (s.ancestors id) := fun id =>
    .bind (hget id) fun _ => refuses_climb s id _ _ _
  exact ⟨hancestors, fun id => .bind (hancestors id) fun _ => refuses_resolve s _,
    fun id => .bind (.bind (hget id) fun _ => refuses_spread s id _ _ _)
      fun _ => refuses_resolve s _,
    fun id => .bind (hget id) fun _ => refuses_resolve s _, fun _ => refuses_resolve s _⟩

end GroupStore

namespace Stores

variable {P : AuthError → Prop} {s : Stores}

/-- The calls on the stores fail as the walks through the groups do, or because of the caller. -/
theorem failsOnlyWith_serve (hP : ∀ e, e.blamesCaller = true → P e)
    (h : s.groups.WalksFailOnlyWith P) (c : StoreCall) :
    FailsOnlyWith P (s.serve c) := by
  cases c with
  | saveGroup g => exact .bind (GroupStore.failsOnlyWith_save hP _ g) fun _ => .ok _
  | updateGroup g now => exact .bind (h.update hP g now) fun _ => .ok _
  | deleteGroup id => exact .bind (GroupStore.failsOnlyWith_delete hP _ id) fun _ => .ok _
  | group id => exact .bind (GroupStore.failsOnlyWith_get hP _ id) fun _ => .ok _
  | groupByName name => exact .bind (GroupStore.failsOnlyWith_getByName hP _ name) fun _ => .ok _
  | children id => exact .bind (h.retrieveChildren id) fun _ => .ok _
  | ancestors id => exact .bind (h.retrieveAncestors id) fun _ => .ok _
  | descendants id => exact .bind (h.retrieveDescendants id) fun _ => .ok _
  | assign member id => exact .bind (GroupStore.failsOnlyWith_assign hP _ member id) fun _ => .ok _
  | unassign member id =>
    exact .bind (GroupStore.failsOnlyWith_unassign hP _ member id) fun _ => .ok _
  | memberships member => exact .bind (h.retrieveMemberships member) fun _ => .ok _
  | members id => exact .bind (GroupStore.failsOnlyWith_retrieveMembers hP _ id) fun _ => .ok _
  | savePolicy p =>
    refine .bind (.bind ?_ fun _ => .guard (hP _ rfl) (.guard (hP _ rfl) (.ok _))) fun _ => .ok _
    unfold Policy.validate
    split
    · exact .error (hP _ rfl)
    · exact .ok _
  | policies holder object => exact .ok _
  | removePolicy p =>
    refine .bind ?_ fun _ => .ok _
    unfold PolicyStore.remove
    split
    · exact .error (hP _ rfl)
    · exact .ok _
  | removePolicies holder => exact .ok _
  | saveKey k =>
    refine .bind ?_ fun _ => .ok _
    unfold KeyStore.save
    split
    · exact .error (hP _ rfl)
    · exact .guard (hP _ rfl) (.ok _)
  | key slot =>
    refine .bind ?_ fun _ => .ok _
    unfold KeyStore.retrieve
    split
    · exact .ok _
    · exact .error (hP _ rfl)
  | removeKey slot =>
    refine .bind ?_ fun _ => .ok _
    unfold KeyStore.remove
    split
    · exact .ok _
    · exact .error (hP _ rfl)

/-- Whatever the stores hold, they give no other answers than refusals. -/
theorem refuses_reply (s : Stores) (c : StoreCall) :
    FailsOnlyWith (fun e => e.isRefusal = true) (s.reply c) :=
  (failsOnlyWith_serve (fun _ => AuthError.isRefusal_of_blamesCaller) s.groups.walks_refuse c).map _

end Stores
end AccessControl
