import AccessControl.Stores

/-! # Runs of store calls

The stores after any calls, in any order and with any arguments. A call that fails leaves them as
they are, so what each successful change keeps is true after every run.
-/
namespace AccessControl

inductive GroupStore.Change (s : GroupStore) : GroupStore → Prop
  | save {g : Group} {s' : GroupStore} (h : s.save g = .ok s') : Change s s'
  | update {g : Group} {now : Instant} {r : Group × GroupStore} (h : s.update g now = .ok r) :
      Change s r.2
  | delete {id : GroupId} {s' : GroupStore} (h : s.delete id = .ok s') : Change s s'
  | assign {member : String} {id : GroupId} {s' : GroupStore} (h : s.assign member id = .ok s') :
      Change s s'
  | unassign {member : String} {id : GroupId} {s' : GroupStore}
      (h : s.unassign member id = .ok s') :
    Change s s'

inductive PolicyStore.Change (s : PolicyStore) : PolicyStore → Prop
  | save {p : Policy} {s' : PolicyStore} (h : s.save p = .ok s') : Change s s'
  | remove {p : Policy} {s' : PolicyStore} (h : s.remove p = .ok s') : Change s s'
  | removeHeldBy (holder : Principal) : Change s (s.removeHeldBy holder).2

def StoreCall.isQuery : StoreCall → Bool
  | .group _ | .groupByName _ | .children _ | .ancestors _ | .descendants _ | .memberships _
  | .members _
  | .policies .. | .key _ => true
  | _ => false

namespace Stores

def reply (s : Stores) (c : StoreCall) : Result c.Reply := (s.serve c).map (·.1)

def after (s : Stores) (c : StoreCall) : Stores :=
  match s.serve c with
  | .ok (_, s') => s'
  | .error _ => s

def afterAll (s : Stores) (calls : List StoreCall) : Stores := calls.foldl after s

theorem after_eq_or_serve (s : Stores) (c : StoreCall) :
    s.after c = s ∨ ∃ reply, s.serve c = .ok (reply, s.after c) := by
  unfold after
  cases h : s.serve c with
  | ok r => exact Or.inr ⟨r.1, rfl⟩
  | error e => exact Or.inl rfl

/-- A call leaves what its attempt on one store makes of them, or nothing has changed. -/
theorem after_of_attempt {s : Stores} {c : StoreCall} {α : Type} {attempt : Result α}
    {f : α → c.Reply × Stores} (h : s.serve c = attempt >>= fun a => pure (f a)) :
    s.after c = s ∨ ∃ a, attempt = .ok a ∧ s.after c = (f a).2 := by
  cases attempt with
  | error e =>
    left
    rw [after, h]
    rfl
  | ok a =>
    right
    refine ⟨a, rfl, ?_⟩
    rw [after, h]
    rfl

/-- Queries hand the stores on. -/
theorem serve_query {s s' : Stores} {c : StoreCall} {reply : c.Reply} (hc : c.isQuery = true)
    (h : s.serve c = .ok (reply, s')) : s' = s := by
  cases c with
  | policies holder object =>
    cases h
    rfl
  | group _ | groupByName _ | children _ | ancestors _ | descendants _ | memberships _ | members _
  | key _ =>
    obtain ⟨_, _, he⟩ := Result.bind_eq_ok_iff.1 h
    cases he
    rfl
  | saveGroup _ | updateGroup _ _ | deleteGroup _ | assign _ _ | unassign _ _ | savePolicy _
  | removePolicy _
  | removePolicies _ | saveKey _ | removeKey _ => cases hc

/-- A call that succeeds changes one store at most. -/
theorem serve_cases {s s' : Stores} {c : StoreCall} {reply : c.Reply}
    (h : s.serve c = .ok (reply, s')) :
    s' = s ∨ (∃ groups, s.groups.Change groups ∧ s' = { s with groups := groups }) ∨
    (∃ policies, s.policies.Change policies ∧ s' = { s with policies := policies }) ∨
    ∃ keys, s' = { s with keys := keys } := by
  cases c with
  | saveGroup g =>
    obtain ⟨_, hs, he⟩ := Result.bind_eq_ok_iff.1 h
    cases he
    exact Or.inr (Or.inl ⟨_, .save hs, rfl⟩)
  | updateGroup g now =>
    obtain ⟨_, hs, he⟩ := Result.bind_eq_ok_iff.1 h
    cases he
    exact Or.inr (Or.inl ⟨_, .update hs, rfl⟩)
  | deleteGroup id =>
    obtain ⟨_, hs, he⟩ := Result.bind_eq_ok_iff.1 h
    cases he
    exact Or.inr (Or.inl ⟨_, .delete hs, rfl⟩)
  | assign member id =>
    obtain ⟨_, hs, he⟩ := Result.bind_eq_ok_iff.1 h
    cases he
    exact Or.inr (Or.inl ⟨_, .assign hs, rfl⟩)
  | unassign member id =>
    obtain ⟨_, hs, he⟩ := Result.bind_eq_ok_iff.1 h
    cases he
    exact Or.inr (Or.inl ⟨_, .unassign hs, rfl⟩)
  | savePolicy p =>
    obtain ⟨_, hs, he⟩ := Result.bind_eq_ok_iff.1 h
    cases he
    exact Or.inr (Or.inr (Or.inl ⟨_, .save hs, rfl⟩))
  | removePolicy p =>
    obtain ⟨_, hs, he⟩ := Result.bind_eq_ok_iff.1 h
    cases he
    exact Or.inr (Or.inr (Or.inl ⟨_, .remove hs, rfl⟩))
  | removePolicies holder =>
    cases h
    exact Or.inr (Or.inr (Or.inl ⟨_, .removeHeldBy holder, rfl⟩))
  | saveKey k =>
    obtain ⟨_, _, he⟩ := Result.bind_eq_ok_iff.1 h
    cases he
    exact Or.inr (Or.inr (Or.inr ⟨_, rfl⟩))
  | removeKey slot =>
    obtain ⟨_, _, he⟩ := Result.bind_eq_ok_iff.1 h
    cases he
    exact Or.inr (Or.inr (Or.inr ⟨_, rfl⟩))
  | group _ | groupByName _ | children _ | ancestors _ | descendants _ | memberships _ | members _
  | policies _ _
  | key _ => exact Or.inl (serve_query rfl h)

theorem after_query {s : Stores} {c : StoreCall} (hc : c.isQuery = true) : s.after c = s := by
  rcases s.after_eq_or_serve c with h | ⟨_, h⟩
  · exact h
  · exact serve_query hc h

theorem afterAll_induction {P : Stores → Prop} {s : Stores} (start : P s)
    (step : ∀ s c, P s → P (s.after c)) (calls : List StoreCall) : P (s.afterAll calls) := by
  induction calls generalizing s with
  | nil => exact start
  | cons c rest ih => exact ih (step s c start)

/-- What the empty group store has and every change keeps is true after every run. -/
theorem groups_afterAll {P : GroupStore → Prop} (start : P .empty)
    (change : ∀ s s', P s → s.Change s' → P s') (calls : List StoreCall) :
    P (empty.afterAll calls).groups := by
  apply afterAll_induction (P := fun s => P s.groups) start
  intro s c hs
  rcases s.after_eq_or_serve c with h | ⟨reply, h⟩
  · rwa [h]
  · rcases serve_cases h with he | ⟨groups, hchange, he⟩ | ⟨_, _, he⟩ | ⟨_, he⟩
    · rwa [he]
    · rw [he]
      exact change _ _ hs hchange
    · rwa [he]
    · rwa [he]

/-- What the empty policy store has and every change keeps is true after every run. -/
theorem policies_afterAll {P : PolicyStore → Prop} (start : P .empty)
    (change : ∀ s s', P s → s.Change s' → P s') (calls : List StoreCall) :
    P (empty.afterAll calls).policies := by
  apply afterAll_induction (P := fun s => P s.policies) start
  intro s c hs
  rcases s.after_eq_or_serve c with h | ⟨reply, h⟩
  · rwa [h]
  · rcases serve_cases h with he | ⟨_, _, he⟩ | ⟨policies, hchange, he⟩ | ⟨_, he⟩
    · rwa [he]
    · rwa [he]
    · rw [he]
      exact change _ _ hs hchange
    · rwa [he]

end Stores
end AccessControl
