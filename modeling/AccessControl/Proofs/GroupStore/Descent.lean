import AccessControl.Proofs.GroupStore.Ancestry

/-! # Who is below a group

The walk downward takes the children of one group after another from a queue. What it has found and
the start are different stored groups at every moment, because a child has one parent and no group
lies above itself; so its two guards never stop it, and it ends with an empty queue and everything
below the start.
-/
namespace AccessControl.GroupStore

variable {s : GroupStore} {g : Group} {id start c p : GroupId} {gone queue found : List GroupId}

theorem mem_childrenOf_iff (h : Nested s) : c ∈ s.childrenOf p ↔ s.parentOf c = some p := by
  rw [h.children_iff, parentOf, Option.bind_eq_some_iff]

theorem stored_of_parentOf (h : s.parentOf c = some p) : s.groups.contains c = true := by
  obtain ⟨g, hg, _⟩ := Option.bind_eq_some_iff.1 h
  exact Dict.contains_iff.2 ⟨g, hg⟩

theorem IsAbove.stored (h : s.IsAbove p c) : s.groups.contains c = true := by
  obtain ⟨_, hparent, _⟩ := Relation.TransGen.head'_iff.1 h
  exact stored_of_parentOf hparent

structure Descent (s : GroupStore) (start : GroupId) (gone queue found : List GroupId) : Prop where
  row : gone ++ queue = start :: found
  children : found = gone.flatMap s.childrenOf
  nodup : (start :: found).Nodup
  below : ∀ c ∈ found, s.IsAbove start c

theorem descent_start : Descent s start [] [start] [] :=
  ⟨rfl, rfl, List.nodup_cons.2 ⟨List.not_mem_nil, List.nodup_nil⟩, fun _ hc =>
    absurd hc List.not_mem_nil⟩

namespace Descent

theorem stored (d : Descent s start gone queue found) (hstart : s.groups.contains start = true)
    (hc : c ∈ start :: found) : s.groups.contains c = true := by
  rcases List.mem_cons.1 hc with rfl | hc
  · exact hstart
  · exact (d.below c hc).stored

theorem length_le (d : Descent s start gone queue found) (hstart : s.groups.contains start = true) :
    found.length + 1 ≤ s.groups.size := by
  rw [← Dict.length_keys]
  refine (d.nodup.subperm ?_).length_le
  intro c hc
  exact Dict.mem_keys_iff.2 (Dict.contains_iff.1 (d.stored hstart hc))

/-- The next group in the queue is the start or lies below it, so its children lie below the
start. -/
theorem below_next (d : Descent s start gone (id :: queue) found) (hc : s.parentOf c = some id) :
    s.IsAbove start c := by
  have hid : id ∈ start :: found := d.row ▸ List.mem_append_right _ (List.mem_cons_self ..)
  rcases List.mem_cons.1 hid with rfl | hid
  · exact .single hc
  · exact .head hc (d.below id hid)

/-- A child that was found before would have another parent, which was taken from the queue
before. -/
theorem not_mem_found (d : Descent s start gone (id :: queue) found) (hn : Nested s)
    (hc : s.parentOf c = some id) : c ∉ found := by
  intro hfound
  rw [d.children] at hfound
  obtain ⟨p, hp, hcp⟩ := List.mem_flatMap.1 hfound
  have hpid : p = id := Option.some.inj (((mem_childrenOf_iff hn).1 hcp).symm.trans hc)
  have hrow : (gone ++ id :: queue).Nodup := d.row ▸ d.nodup
  exact (List.nodup_append.1 hrow).2.2 p hp id (List.mem_cons_self ..) hpid

/-- One step of the walk: the first group of the queue is done with, and its children wait behind
the others. -/
theorem next (d : Descent s start gone (id :: queue) found) (h : Sound s) :
    Descent s start (gone ++ [id]) (queue ++ s.childrenOf id) (found ++ s.childrenOf id) where
  row := by
    rw [List.append_assoc, ← List.append_assoc [id], ← List.append_assoc gone]
    exact congrArg (· ++ s.childrenOf id) d.row
  children := by rw [List.flatMap_append, ← d.children, List.flatMap_singleton]
  nodup := by
    refine List.nodup_append.2 ⟨d.nodup, h.children_nodup id, ?_⟩
    intro a ha b hb hab
    subst hab
    have hparent := (mem_childrenOf_iff h.toNested).1 hb
    rcases List.mem_cons.1 ha with rfl | ha
    · exact h.forest.not_mem_above a (h.forest.mem_above_of_isAbove (d.below_next hparent))
    · exact d.not_mem_found h.toNested hparent ha
  below := by
    intro c hc
    rcases List.mem_append.1 hc with hc | hc
    · exact d.below c hc
    · exact d.below_next ((mem_childrenOf_iff h.toNested).1 hc)

end Descent

/-- The guards let through what is new as long as there is room. -/
theorem collect_eq_append {cs : List GroupId} (hnodup : (start :: (found ++ cs)).Nodup)
    (hroom : found.length + cs.length + 1 ≤ s.groups.size) :
    s.collect start found cs = .ok (found ++ cs) := by
  induction cs generalizing found with
  | nil => rw [List.append_nil]; rfl
  | cons c rest ih =>
    have hc : ¬(c ∈ start :: found ∨ s.groups.size ≤ found.length) := by
      rintro (hmem | hfull)
      · exact (List.nodup_append.1 (List.cons_append ▸ hnodup)).2.2 c hmem c
          (List.mem_cons_self ..) rfl
      · rw [List.length_cons] at hroom
        omega
    rw [collect, if_neg hc, ih (by simpa using hnodup)
      (by simpa [Nat.add_assoc, Nat.add_comm 1] using hroom), List.append_assoc]
    rfl

/-- The steps of the walk are enough: they are spent only on different stored groups. -/
theorem Descent.spread_eq {steps : Nat} (d : Descent s start gone queue found) (h : Sound s)
    (hstart : s.groups.contains start = true) (hsteps : s.groups.size + 1 ≤ gone.length + steps) :
    ∃ gone' all, s.spread start steps found queue = .ok all ∧ Descent s start gone' [] all := by
  induction steps generalizing gone queue found with
  | zero =>
    have hlength := congrArg List.length d.row
    have hle := d.length_le hstart
    simp only [List.length_append, List.length_cons] at hlength
    omega
  | succ steps ih =>
    cases queue with
    | nil => exact ⟨gone, found, rfl, d⟩
    | cons id queue =>
      have hnext := d.next h
      have hle := hnext.length_le hstart
      rw [List.length_append] at hle
      obtain ⟨gone', all, hall, hend⟩ :=
        ih hnext (by simpa [Nat.add_assoc, Nat.add_comm 1] using hsteps)
      refine ⟨gone', all, ?_, hend⟩
      rw [spread, collect_eq_append hnext.nodup hle]
      exact hall

/-- A walk that has emptied its queue has found the children of everything that it found. -/
theorem Descent.mem_iff (d : Descent s start gone [] found) (hn : Nested s) :
    c ∈ found ↔ s.IsAbove start c := by
  have hrow : gone = start :: found := by simpa using d.row
  have hclosed : ∀ {c q}, s.parentOf c = some q → q ∈ start :: found → c ∈ found := by
    intro c q hparent hq
    rw [d.children, hrow]
    exact List.mem_flatMap.2 ⟨q, hq, (mem_childrenOf_iff hn).2 hparent⟩
  refine ⟨d.below c, fun habove => ?_⟩
  induction habove using Relation.TransGen.head_induction_on with
  | single hparent => exact hclosed hparent (List.mem_cons_self ..)
  | head hparent _ ih => exact hclosed hparent (List.mem_cons_of_mem _ ih)

/-- The walk from a stored group ends when it has taken the start and everything that it found from
its queue. -/
theorem Sound.descent_of_stored (h : Sound s) (hid : s.groups.contains id = true) :
    ∃ found, s.descendants id = .ok found ∧ Descent s id (id :: found) [] found := by
  obtain ⟨gone, found, hfound, hend⟩ := descent_start.spread_eq h hid (Nat.le_add_left _ _)
  obtain ⟨g, hg⟩ := Dict.contains_iff.1 hid
  have hgone : gone = id :: found := by simpa using hend.row
  refine ⟨found, ?_, hgone ▸ hend⟩
  rw [descendants, get_eq_ok_iff.2 hg]
  exact hfound

/-- Everything found below a stored group is stored, so the walk from the group is answered by its
records. -/
theorem Sound.retrieveDescendants_eq_records (h : Sound s) (hid : s.groups.contains id = true) :
    ∃ found, s.retrieveDescendants id = .ok (s.records found) ∧
      Descent s id (id :: found) [] found := by
  obtain ⟨found, hfound, d⟩ := h.descent_of_stored hid
  have hstored : ∀ c ∈ found, s.groups.contains c = true := fun c hc => (d.below c hc).stored
  refine ⟨found, ?_, d⟩
  rw [retrieveDescendants, hfound]
  exact resolve_eq_records hstored

theorem Sound.retrieveDescendants_eq (h : Sound s) (hid : s.groups.contains id = true) :
    ∃ gs, s.retrieveDescendants id = .ok gs ∧ (gs.map (·.id)).Nodup ∧
      ∀ c, c ∈ gs.map (·.id) ↔ s.IsAbove id c := by
  obtain ⟨found, hfound, d⟩ := h.retrieveDescendants_eq_records hid
  have hids : (s.records found).map (·.id) = found :=
    h.ids_records fun c hc => (d.below c hc).stored
  refine ⟨s.records found, hfound, ?_, fun c => ?_⟩
  · rw [hids]
    exact (List.nodup_cons.1 d.nodup).2
  · rw [hids]
    exact d.mem_iff h.toNested

theorem Nested.childrenOf_stored (h : Nested s) (id : GroupId) :
    ∀ c ∈ s.childrenOf id, s.groups.contains c = true :=
  fun _ hc => stored_of_parentOf ((mem_childrenOf_iff h).1 hc)

theorem Nested.retrieveChildren_eq_records (h : Nested s) (hid : s.groups.contains id = true) :
    s.retrieveChildren id = .ok (s.records (s.childrenOf id)) := by
  obtain ⟨g, hg⟩ := Dict.contains_iff.1 hid
  rw [retrieveChildren, get_eq_ok_iff.2 hg]
  exact resolve_eq_records (h.childrenOf_stored id)

theorem Valid.retrieveChildren_eq (h : Valid s) (hid : s.groups.contains id = true) :
    ∃ gs, s.retrieveChildren id = .ok gs ∧ gs.map (·.id) = s.childrenOf id :=
  ⟨_, h.retrieveChildren_eq_records hid, h.ids_records (h.childrenOf_stored id)⟩

end AccessControl.GroupStore
