import AccessControl.Proofs.GroupStore.Moves
import AccessControl.Proofs.Stores.History

/-! # Siblings

The children of a group are listed in the order in which they were last attached to it. A change
puts one group last in a list or takes one out of it and never exchanges two, so every list goes on
in the order of the moments of its run.
-/
namespace AccessControl

/-- A call makes one group the child of another: it saves the group there, or moves it there from
somewhere else. -/
inductive Stores.Attaches (st : Stores) : StoreCall → GroupId → GroupId → Prop
  | save {g : Group} {s' : GroupStore} {p : GroupId} (hs : st.groups.save g = .ok s')
      (hparent : g.parent = some p) :
    Attaches st (.saveGroup g) g.id p
  | move {old g : Group} {now : Instant} {r : Group × GroupStore} {p : GroupId}
    (hs : st.groups.update g now = .ok r) (hold : st.groups.get g.id = .ok old)
      (helsewhere : old.parent ≠ some p)
    (hparent : g.parent = some p) : Attaches st (.updateGroup g now) g.id p

def AttachedAt (c p : GroupId) (calls : List StoreCall) (n : Nat) : Prop :=
  ∃ call, calls[n]? = some call ∧ (Stores.empty.afterAll (calls.take n)).Attaches call c p

/-- The call with a number in a run attaches a group to another, and none after it does so again. -/
def LastAttached (c p : GroupId) (calls : List StoreCall) (n : Nat) : Prop :=
  AttachedAt c p calls n ∧ ∀ m, n < m → ¬AttachedAt c p calls m

section Moments

variable {c p : GroupId} {calls : List StoreCall} {call : StoreCall} {n : Nat}

theorem AttachedAt.lt_length (h : AttachedAt c p calls n) : n < calls.length := by
  obtain ⟨_, hcall, -⟩ := h
  exact (List.getElem?_eq_some_iff.1 hcall).1

theorem attachedAt_concat : AttachedAt c p (calls ++ [call]) n ↔
    AttachedAt c p calls n ∨ n = calls.length ∧
      (Stores.empty.afterAll calls).Attaches call c p := by
  unfold AttachedAt
  rcases Nat.lt_trichotomy n calls.length with hn | rfl | hn
  · rw [List.getElem?_append_left hn, List.take_append_of_le_length (Nat.le_of_lt hn)]
    simp [Nat.ne_of_lt hn]
  · simp
  · have hnone : (calls ++ [call])[n]? = none := List.getElem?_eq_none (by rwa [List.length_append])
    simp [hnone, List.getElem?_eq_none (Nat.le_of_lt hn), Nat.ne_of_gt hn]

/-- After a call that attaches a group, that call is the last one to have done so. -/
theorem lastAttached_concat (h : (Stores.empty.afterAll calls).Attaches call c p) :
    LastAttached c p (calls ++ [call]) n ↔ n = calls.length := by
  have hlater : ∀ {m}, calls.length < m → ¬AttachedAt c p (calls ++ [call]) m := by
    intro m hm hat
    have hlt := hat.lt_length
    rw [List.length_append, List.length_singleton] at hlt
    omega
  have hlast : AttachedAt c p (calls ++ [call]) calls.length := attachedAt_concat.2 (.inr ⟨rfl, h⟩)
  constructor
  · rintro ⟨hat, hnone⟩
    rcases Nat.lt_trichotomy n calls.length with hn | hn | hn
    · exact absurd hlast (hnone _ hn)
    · exact hn
    · exact absurd hat (hlater hn)
  · rintro rfl
    exact ⟨hlast, fun m hm => hlater hm⟩

theorem lastAttached_concat_of_not (h : ¬(Stores.empty.afterAll calls).Attaches call c p) :
    LastAttached c p (calls ++ [call]) n ↔ LastAttached c p calls n := by
  simp only [LastAttached, attachedAt_concat, h, and_false, or_false]

end Moments

namespace GroupStore

variable {s s' : GroupStore} {old g : Group} {id p : GroupId} {now : Instant}
  {r : Group × GroupStore}

theorem filter_ne_of_not_mem {ids : List GroupId} (h : id ∉ ids) : ids.filter (· != id) = ids :=
  List.filter_eq_self.2 fun _ hc => bne_iff_ne.2 fun he => h (he ▸ hc)

theorem childrenOf_save (hs : s.save g = .ok s') (p : GroupId) :
    s'.childrenOf p = s.childrenOf p ++ if g.parent = some p then [g.id] else [] := by
  obtain ⟨-, -, -, -, rfl⟩ := save_eq_ok_iff.1 hs
  by_cases hp : g.parent = some p
  · simp only [childrenOf_eq_childrenIn, hp, childrenIn_attach_self, if_true]
  · simp only [childrenOf_eq_childrenIn, childrenIn_attach_ne hp, hp, if_false, List.append_nil]

/-- A group is taken out of the list of its parent, and out of the others as well, because they do
not have it. -/
theorem Nested.childrenIn_detach (h : Nested s) (hg : s.groups.get? id = some g) (p : GroupId) :
    childrenIn (detach s.children g.parent id) p = (s.childrenOf p).filter (· != id) := by
  by_cases hp : g.parent = some p
  · rw [hp, childrenIn_detach_self, childrenOf_eq_childrenIn]
  · have hnot : id ∉ s.childrenOf p := by rwa [mem_childrenOf_iff h, parentOf_eq hg]
    rw [childrenIn_detach_ne hp, ← childrenOf_eq_childrenIn, filter_ne_of_not_mem hnot]

theorem childrenOf_update_in_place (hs : s.update g now = .ok r) (hold : s.get g.id = .ok old)
    (hparent : old.parent = g.parent) (p : GroupId) : r.2.childrenOf p = s.childrenOf p := by
  obtain ⟨-, old', hold', -, -, -, rfl⟩ := update_eq_ok_iff.1 hs
  cases hold'.symm.trans (get_eq_ok_iff.1 hold)
  simp only [childrenOf_eq_childrenIn, reparent, hparent, ne_eq, not_true_eq_false, if_false]

theorem Nested.childrenOf_move (h : Nested s) (hs : s.update g now = .ok r)
    (hold : s.get g.id = .ok old) (hmoved : old.parent ≠ g.parent) (p : GroupId) :
    r.2.childrenOf p =
      (s.childrenOf p).filter (· != g.id) ++ if g.parent = some p then [g.id] else [] := by
  obtain ⟨-, old', hold', -, -, -, rfl⟩ := update_eq_ok_iff.1 hs
  cases hold'.symm.trans (get_eq_ok_iff.1 hold)
  rw [childrenOf_eq_childrenIn, reparent, if_pos hmoved]
  by_cases hp : g.parent = some p
  · rw [hp, childrenIn_attach_self, ← hp, h.childrenIn_detach hold', if_pos rfl]
  · rw [childrenIn_attach_ne hp, h.childrenIn_detach hold', if_neg hp, List.append_nil]

theorem Nested.childrenOf_delete (h : Nested s) (hs : s.delete id = .ok s') (p : GroupId) :
    s'.childrenOf p = (s.childrenOf p).filter (· != id) := by
  obtain ⟨g, hg, -, -, rfl⟩ := delete_eq_ok_iff.1 hs
  exact h.childrenIn_detach hg p

end GroupStore

namespace Stores
open GroupStore

variable {st : Stores} {call : StoreCall} {c c' p : GroupId}

theorem Attaches.unique (h : st.Attaches call c p) (h' : st.Attaches call c' p) : c = c' := by
  cases h <;> cases h' <;> rfl

/-- A group that is saved was not stored before, and one that is moved was listed elsewhere or
nowhere. -/
theorem Attaches.not_mem (h : st.Attaches call c p) (hn : Nested st.groups) :
    c ∉ st.groups.childrenOf p := by
  rw [mem_childrenOf_iff hn]
  intro hp
  cases h with
  | save hs _ =>
    obtain ⟨-, hnew, -⟩ := save_eq_ok_iff.1 hs
    rw [stored_of_parentOf hp] at hnew
    cases hnew
  | move _ hold helsewhere _ =>
    rw [parentOf_eq (get_eq_ok_iff.1 hold)] at hp
    exact helsewhere hp

theorem Attaches.childrenOf_after (h : st.Attaches call c p) (hn : Nested st.groups) :
    (st.after call).groups.childrenOf p = st.groups.childrenOf p ++ [c] := by
  have hnot : c ∉ st.groups.childrenOf p := h.not_mem hn
  cases h with
  | @save g s' _ hs hparent =>
    have hafter : st.after (.saveGroup g) = { st with groups := s' } := by
      rw [after, serve, hs]; rfl
    rw [hafter, childrenOf_save hs, if_pos hparent]
  | @move old g now r _ hs hold helsewhere hparent =>
    have hafter : st.after (.updateGroup g now) = { st with groups := r.2 } := by
      rw [after, serve, hs]; rfl
    rw [hafter, hn.childrenOf_move hs hold (hparent ▸ helsewhere), filter_ne_of_not_mem hnot,
      if_pos hparent]

/-- A call that attaches nothing to a group puts nothing into its list and exchanges nothing
there. -/
theorem childrenOf_after_sublist (hn : Nested st.groups) (h : ∀ c, ¬st.Attaches call c p) :
    ((st.after call).groups.childrenOf p).Sublist (st.groups.childrenOf p) := by
  rcases st.after_eq_or_serve call with hafter | ⟨reply, hserve⟩
  · rw [hafter]
  · generalize st.after call = st' at hserve
    cases call with
    | saveGroup g =>
      obtain ⟨groups, hs, he⟩ := Result.bind_eq_ok_iff.1 hserve
      cases he
      have hp : g.parent ≠ some p := fun hparent => h g.id (.save hs hparent)
      rw [childrenOf_save hs, if_neg hp, List.append_nil]
    | updateGroup g now =>
      obtain ⟨r, hs, he⟩ := Result.bind_eq_ok_iff.1 hserve
      cases he
      obtain ⟨-, old, hold, -⟩ := update_eq_ok_iff.1 hs
      rw [← get_eq_ok_iff] at hold
      by_cases hmoved : old.parent = g.parent
      · rw [childrenOf_update_in_place hs hold hmoved]
      · have hp : g.parent ≠ some p :=
          fun hparent => h g.id (.move hs hold (hparent ▸ hmoved) hparent)
        rw [hn.childrenOf_move hs hold hmoved, if_neg hp, List.append_nil]
        exact List.filter_sublist
    | deleteGroup id =>
      obtain ⟨groups, hs, he⟩ := Result.bind_eq_ok_iff.1 hserve
      cases he
      rw [hn.childrenOf_delete hs]
      exact List.filter_sublist
    | assign u id =>
      obtain ⟨groups, hs, he⟩ := Result.bind_eq_ok_iff.1 hserve
      cases he
      obtain ⟨-, -, rfl⟩ := assign_eq_ok_iff.1 hs
      exact List.Sublist.refl _
    | unassign u id =>
      obtain ⟨groups, hs, he⟩ := Result.bind_eq_ok_iff.1 hserve
      cases he
      obtain ⟨-, rfl⟩ := unassign_eq_ok_iff.1 hs
      exact List.Sublist.refl _
    | policies _ _ | removePolicies _ =>
      cases hserve
      exact List.Sublist.refl _
    | _ =>
      obtain ⟨_, _, he⟩ := Result.bind_eq_ok_iff.1 hserve
      cases he
      exact List.Sublist.refl _

/-- All of a list were attached to one group, and they stand in the order of the moments at which
they last were. -/
structure InOrder (p : GroupId) (calls : List StoreCall) (children : List GroupId) : Prop where
  attached : ∀ c ∈ children, ∃ n, LastAttached c p calls n
  pairwise : children.Pairwise fun a b => ∀ m n, LastAttached a p calls m →
    LastAttached b p calls n → m < n

/-- The group that a call attaches comes after all those that were attached before. -/
theorem InOrder.concat {calls : List StoreCall} {children : List GroupId}
    (h : InOrder p calls children) (hattaches : (empty.afterAll calls).Attaches call c p)
    (hnot : c ∉ children) :
    InOrder p (calls ++ [call]) (children ++ [c]) := by
  have hkept : ∀ a ∈ children, ∀ n, LastAttached a p (calls ++ [call]) n ↔
      LastAttached a p calls n := by
    intro a ha n
    exact lastAttached_concat_of_not fun hother => hnot (hother.unique hattaches ▸ ha)
  refine ⟨fun a ha => ?_, List.pairwise_append.2
    ⟨?_, List.pairwise_singleton _ _, fun a ha b hb m n hm hn => ?_⟩⟩
  · rcases List.mem_append.1 ha with ha | ha
    · obtain ⟨n, hn⟩ := h.attached a ha
      exact ⟨n, (hkept a ha n).2 hn⟩
    · rw [List.mem_singleton.1 ha]
      exact ⟨_, (lastAttached_concat hattaches).2 rfl⟩
  · refine h.pairwise.imp_of_mem fun {a b} ha hb hab m n hm hn => ?_
    exact hab m n ((hkept a ha m).1 hm) ((hkept b hb n).1 hn)
  · rw [List.mem_singleton.1 hb, lastAttached_concat hattaches] at hn
    rw [hn]
    exact ((hkept a ha m).1 hm).1.lt_length

theorem InOrder.sublist {calls : List StoreCall} {children children' : List GroupId}
    (h : InOrder p calls children) (hnone : ∀ c, ¬(empty.afterAll calls).Attaches call c p)
    (hsub : children'.Sublist children) :
    InOrder p (calls ++ [call]) children' := by
  have hkept : ∀ a n, LastAttached a p (calls ++ [call]) n ↔ LastAttached a p calls n :=
    fun a n => lastAttached_concat_of_not (hnone a)
  constructor
  · intro c hc
    obtain ⟨n, hn⟩ := h.attached c (hsub.subset hc)
    exact ⟨n, (hkept c n).2 hn⟩
  · simp only [hkept]
    exact h.pairwise.sublist hsub

/-- After every run the children of a group stand in the order in which they were last attached. -/
theorem childrenOf_afterAll (p : GroupId) (calls : List StoreCall) :
    InOrder p calls ((empty.afterAll calls).groups.childrenOf p) := by
  -- from the right: a call that comes later does not change the numbers of those before it
  induction calls using List.reverseRecOn with
  | nil => exact ⟨nofun, List.Pairwise.nil⟩
  | append_singleton calls call ih =>
    have hn : Nested (empty.afterAll calls).groups := (sound_afterAll calls).toNested
    rw [afterAll_concat]
    by_cases hattaches : ∃ c, (empty.afterAll calls).Attaches call c p
    · obtain ⟨c, hattaches⟩ := hattaches
      rw [hattaches.childrenOf_after hn]
      exact ih.concat hattaches (hattaches.not_mem hn)
    · rw [not_exists] at hattaches
      exact ih.sublist hattaches (childrenOf_after_sublist hn hattaches)

end Stores

namespace GroupStore

variable {s s' : GroupStore} {old g : Group} {id p : GroupId} {now : Instant}
  {r : Group × GroupStore}

def childIds (s : GroupStore) (p : GroupId) : Result (List GroupId) :=
  Stores.ids <$> s.retrieveChildren p

theorem Valid.childIds_of_stored (h : Valid s) (hp : s.groups.contains p = true) :
    s.childIds p = .ok (s.childrenOf p) := by
  obtain ⟨cs, hcs, hids⟩ := h.retrieveChildren_eq hp
  rw [childIds, hcs]
  exact congrArg Except.ok hids

theorem get_of_missing (hp : s.groups.contains p = false) :
    s.get p = .error (.notFound s!"group {p}") := by
  simp only [get, Dict.contains_eq_false_iff.1 hp]

theorem retrieveChildren_of_missing (hp : s.groups.contains p = false) :
    s.retrieveChildren p = .error (.notFound s!"group {p}") := by
  rw [retrieveChildren, get_of_missing hp]
  rfl

theorem childIds_of_missing (hp : s.groups.contains p = false) :
    s.childIds p = .error (.notFound s!"group {p}") := by
  rw [childIds, retrieveChildren_of_missing hp]
  rfl

/-- What becomes of the list becomes of the answer. -/
theorem Valid.childIds_eq_map (h : Valid s) (h' : Valid s') {f : List GroupId → List GroupId}
    (hstored : s'.groups.contains p = s.groups.contains p)
    (hchildren : s'.childrenOf p = f (s.childrenOf p)) :
    s'.childIds p = f <$> s.childIds p := by
  cases hp : s.groups.contains p with
  | false =>
    rw [childIds_of_missing hp, childIds_of_missing (hstored.trans hp)]
    rfl
  | true =>
    rw [h.childIds_of_stored hp, h'.childIds_of_stored (hstored.trans hp), hchildren]
    rfl

theorem Valid.childIds_update_in_place (h : Valid s) (hs : s.update g now = .ok r)
    (hold : s.get g.id = .ok old) (hparent : g.parent = old.parent) (p : GroupId) :
    r.2.childIds p = s.childIds p := by
  have hchildren : r.2.childrenOf p = id (s.childrenOf p) :=
    childrenOf_update_in_place hs hold hparent.symm p
  rw [h.childIds_eq_map (h.change (.update hs)) (contains_update hs p) hchildren, id_map]

theorem Valid.childIds_move (h : Valid s) (hs : s.update g now = .ok r)
    (hold : s.get g.id = .ok old) (hmoved : g.parent ≠ old.parent) (p : GroupId) : r.2.childIds p =
      (fun ids => ids.filter (· != g.id) ++ if g.parent = some p then [g.id] else []) <$>
        s.childIds p :=
  h.childIds_eq_map (h.change (.update hs)) (contains_update hs p)
    (h.childrenOf_move hs hold hmoved.symm p)

theorem get?_delete_ne (hs : s.delete id = .ok s') (hp : p ≠ id) :
    s'.groups.get? p = s.groups.get? p := by
  obtain ⟨_, -, -, -, rfl⟩ := delete_eq_ok_iff.1 hs
  exact Dict.get?_erase_ne s.groups hp

theorem Valid.childIds_delete (h : Valid s) (hs : s.delete id = .ok s') (hp : p ≠ id) :
    s'.childIds p = (fun ids => ids.filter (· != id)) <$> s.childIds p := by
  refine h.childIds_eq_map (h.change (.delete hs)) ?_ (h.childrenOf_delete hs p)
  rw [Dict.contains, get?_delete_ne hs hp, Dict.contains]

/-- A group that goes away and comes back is the last of the children. -/
theorem Valid.childIds_return {away back : Group} {now' : Instant} {r' : Group × GroupStore}
    (h : Valid s) (hold : s.get away.id = .ok old) (hparent : old.parent = some p)
    (haway : s.update away now = .ok r) (helsewhere : away.parent ≠ some p)
    (hid : back.id = away.id) (hagain : back.parent = some p)
    (hback : r.2.update back now' = .ok r') :
    r'.2.childIds p = (fun ids => ids.filter (· != away.id) ++ [away.id]) <$> s.childIds p := by
  have hleft : r.2.parentOf away.id = away.parent := parentOf_update_self haway
  obtain ⟨-, between, hbetween, -⟩ := update_eq_ok_iff.1 hback
  rw [← hid, parentOf_eq hbetween] at hleft
  have hmoved : back.parent ≠ between.parent := by rwa [hagain, hleft, ne_comm]
  have hgone := h.childIds_move haway hold (hparent ▸ helsewhere) p
  have hreturn := (h.change (.update haway)).childIds_move hback (get_eq_ok_iff.2 hbetween) hmoved p
  rw [hreturn, hgone, ← comp_map]
  congr 1
  funext ids
  simp [helsewhere, hid, hagain]

/-- After every run the children of a stored group are the stored groups with that parent, each
once, in the order in which they were last attached to it. An update that leaves the parent of a
group leaves every such list. One that changes it takes the group out of its list, where the others
keep their order, and puts it last under the new parent, also when it has been there before; and
deleting a group only takes it out. -/
theorem children_by_attachment (calls : List StoreCall) :
    let s := (Stores.empty.afterAll calls).groups
    (∀ p g, s.get p = .ok g → ∃ cs, s.retrieveChildren p = .ok cs ∧ (Stores.ids cs).Nodup ∧
      (∀ c, c ∈ cs ↔ s.get c.id = .ok c ∧ c.parent = some p) ∧
      (∀ c ∈ cs, ∃ n, LastAttached c.id p calls n) ∧
      cs.Pairwise fun a b => ∀ m n, LastAttached a.id p calls m →
        LastAttached b.id p calls n → m < n) ∧
    (∀ old g now r, s.get g.id = .ok old → s.update g now = .ok r → ∀ p, r.2.childIds p =
      if g.parent = old.parent then s.childIds p
      else (fun ids => ids.filter (· != g.id) ++ if g.parent = some p then [g.id] else []) <$>
        s.childIds p) ∧
    (∀ old away back now now' r r' p, s.get away.id = .ok old → old.parent = some p →
      s.update away now = .ok r →
      away.parent ≠ some p → back.id = away.id → back.parent = some p →
        r.2.update back now' = .ok r' →
      r'.2.childIds p = (fun ids => ids.filter (· != away.id) ++ [away.id]) <$> s.childIds p) ∧
    ∀ id s', s.delete id = .ok s' → ∀ p, p ≠ id →
      s'.childIds p = (fun ids => ids.filter (· != id)) <$> s.childIds p := by
  intro s
  have h : Sound s := sound_afterAll calls
  refine ⟨fun p g hg => ?_, fun old g now r hold hs p => ?_, ?_, ?_⟩
  · have hp : s.groups.contains p = true := Dict.contains_iff.2 ⟨g, get_eq_ok_iff.1 hg⟩
    have hids : Stores.ids (s.records (s.childrenOf p)) = s.childrenOf p :=
      h.ids_records (h.childrenOf_stored p)
    obtain ⟨hmoments, horder⟩ := Stores.childrenOf_afterAll p calls
    refine ⟨_, h.retrieveChildren_eq_records hp, ?_, fun c => ?_, fun c hc => ?_, ?_⟩
    · rw [hids]
      exact h.children_nodup p
    · rw [h.mem_records_iff, get_eq_ok_iff, mem_childrenOf_iff h.toNested, and_comm]
      exact and_congr_right fun hc => by rw [parentOf_eq hc]
    · exact hmoments c.id (h.mem_records_iff.1 hc).1
    · have hmapped : (Stores.ids (s.records (s.childrenOf p))).Pairwise fun a b =>
          ∀ m n, LastAttached a p calls m → LastAttached b p calls n → m < n := by
        rw [hids]
        exact horder
      exact List.pairwise_map.1 hmapped
  · by_cases hparent : g.parent = old.parent
    · rw [if_pos hparent, h.childIds_update_in_place hs hold hparent]
    · rw [if_neg hparent, h.childIds_move hs hold hparent]
  · exact fun old away back now now' r r' p hold hparent haway helsewhere hid hagain hback =>
      h.childIds_return hold hparent haway helsewhere hid hagain hback
  · exact fun id s' hs p hp => h.childIds_delete hs hp

end GroupStore
end AccessControl
