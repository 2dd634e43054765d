import AccessControl.Proofs.GroupStore.Indices
import Mathlib.Data.List.Perm.Subperm

/-! # The forest of groups

Every stored group has a line of parents that ends at a root. A line never meets a group twice, so
it is shorter than the number of stored groups and the walk upward finds all of it. Saving adds a
leaf, deleting takes one away, and a move is refused where the new line would come back to the
group.
-/
namespace AccessControl.GroupStore

variable {s s' : GroupStore} {g : Group} {id p : GroupId} {cursor : Option GroupId}
  {line rest : List GroupId}

/-- The groups that are met by going upward from a cursor until there is no parent. -/
inductive Line (s : GroupStore) : Option GroupId → List GroupId → Prop
  | root : Line s none []
  | up {p : GroupId} {g : Group} {line : List GroupId} (hp : s.groups.get? p = some g)
      (hline : Line s g.parent line) : Line s (some p) (p :: line)

theorem Line.unique (h : Line s cursor line) (h' : Line s cursor rest) : line = rest := by
  induction h generalizing rest with
  | root =>
    cases h'
    rfl
  | up hp _ ih =>
    cases h' with
    | up hp' hline' =>
      cases hp.symm.trans hp'
      rw [ih hline']

theorem Line.stored (h : Line s cursor line) (hp : p ∈ line) : s.groups.contains p = true := by
  induction h with
  | root => cases hp
  | up hq _ ih =>
    rcases List.mem_cons.1 hp with rfl | hp
    · exact Dict.contains_iff.2 ⟨_, hq⟩
    · exact ih hp

/-- From each group on a line its own line goes on. -/
theorem Line.split (h : Line s cursor line) (hp : p ∈ line) :
    ∃ below rest, line = below ++ p :: rest ∧ p ∉ below ∧ Line s (some p) (p :: rest) := by
  induction h with
  | root => cases hp
  | @up q g line hq hline ih =>
    by_cases hpq : p = q
    · subst hpq
      exact ⟨[], line, rfl, List.not_mem_nil, .up hq hline⟩
    · obtain ⟨below, rest, hl, hnot, hrest⟩ := ih ((List.mem_cons.1 hp).resolve_left hpq)
      exact ⟨q :: below, rest, by rw [hl]; rfl, by simp [hpq, hnot], hrest⟩

theorem Line.not_mem_tail (h : Line s (some p) (p :: line)) : p ∉ line := by
  intro hp
  cases h with
  | up hq hline =>
    obtain ⟨below, rest, hl, _, hrest⟩ := hline.split hp
    have heq := congrArg List.length ((Line.up hq hline).unique hrest)
    rw [hl] at heq
    simp only [List.length_cons, List.length_append] at heq
    omega

theorem Line.nodup (h : Line s cursor line) : line.Nodup := by
  induction h with
  | root => exact List.nodup_nil
  | up hp hline ih => exact List.nodup_cons.2 ⟨(Line.up hp hline).not_mem_tail, ih⟩

theorem Line.length_le (h : Line s cursor line) : line.length ≤ s.groups.size := by
  rw [← Dict.length_keys]
  refine (h.nodup.subperm ?_).length_le
  intro p hp
  exact Dict.mem_keys_iff.2 (Dict.contains_iff.1 (h.stored hp))

/-- A line is the same in a store where its groups have the same parents. -/
theorem Line.congr (h : Line s cursor line)
    (hsame : ∀ p ∈ line, ∀ g, s.groups.get? p = some g → ∃ g', s'.groups.get? p = some g' ∧
      g'.parent = g.parent) :
    Line s' cursor line := by
  induction h with
  | root => exact .root
  | up hp hline ih =>
    obtain ⟨g', hg', hparent⟩ := hsame _ (List.mem_cons_self ..) _ hp
    refine .up hg' ?_
    rw [hparent]
    exact ih fun q hq => hsame q (List.mem_cons_of_mem _ hq)

/-- Below a group that got another line, lines keep their part below it. -/
theorem Line.splice {below : List GroupId} (h : Line s cursor (below ++ p :: rest))
    (hsame : ∀ q ∈ below, ∀ g, s.groups.get? q = some g → ∃ g', s'.groups.get? q = some g' ∧
      g'.parent = g.parent) (hp : Line s' (some p) (p :: line)) :
    Line s' cursor (below ++ p :: line) := by
  induction below generalizing cursor with
  | nil =>
    cases h
    exact hp
  | cons q below ih =>
    cases h with
    | up hq hline =>
      obtain ⟨g', hg', hparent⟩ := hsame q (List.mem_cons_self ..) _ hq
      refine .up hg' ?_
      rw [hparent]
      exact ih hline fun r hr => hsame r (List.mem_cons_of_mem _ hr)

/-- A group on a line is where the line starts, or the parent of another group on it. -/
theorem Line.start_or_parent (h : Line s cursor line) (hp : p ∈ line) :
    cursor = some p ∨ ∃ c g, s.groups.get? c = some g ∧ g.parent = some p := by
  induction h with
  | root => cases hp
  | up hq hline ih =>
    rcases List.mem_cons.1 hp with rfl | hp
    · exact Or.inl rfl
    · rcases ih hp with hstart | hparent
      · exact Or.inr ⟨_, _, hq, hstart⟩
      · exact Or.inr hparent

/-- The walk upward finds a line that has room in its steps and meets nothing seen before. -/
theorem Line.climb_eq {start : GroupId} {steps : Nat} {seen : List GroupId} (h : Line s cursor line)
    (hsteps : line.length ≤ steps) (hseen : ∀ p ∈ line, p ∉ seen) :
    s.climb start steps seen cursor = .ok line := by
  induction h generalizing steps seen with
  | root => cases steps <;> rfl
  | @up p g line hp hline ih =>
    obtain ⟨steps, rfl⟩ := Nat.exists_eq_add_of_le' (Nat.le_trans (Nat.le_add_left 1 _) hsteps)
    have hnot : p ∉ line := (Line.up hp hline).not_mem_tail
    have hrest : s.climb start steps (p :: seen) g.parent = .ok line := by
      refine ih (Nat.le_of_succ_le_succ hsteps) ?_
      intro q hq hmem
      rcases List.mem_cons.1 hmem with rfl | hmem
      · exact hnot hq
      · exact hseen q (List.mem_cons_of_mem _ hq) hmem
    rw [climb, if_neg (hseen p (List.mem_cons_self ..)), hp]
    simp only [hrest]
    rfl

def Forest (s : GroupStore) : Prop :=
  ∀ id g, s.groups.get? id = some g → ∃ line, Line s g.parent line

theorem forest_empty : Forest .empty := by
  intro id g h
  cases h

theorem Forest.of_groups_eq (h : Forest s) (hgroups : s'.groups = s.groups) : Forest s' := by
  intro id g hg
  rw [hgroups] at hg
  obtain ⟨line, hline⟩ := h id g hg
  exact ⟨line, hline.congr fun p _ k hk => ⟨k, hgroups ▸ hk, rfl⟩⟩

theorem not_mem_line (hg : s.groups.get? id = some g) (hline : Line s g.parent line) : id ∉ line :=
  (Line.up hg hline).not_mem_tail

theorem length_line_lt (hg : s.groups.get? id = some g) (hline : Line s g.parent line) :
    line.length < s.groups.size := (Line.up hg hline).length_le

theorem ancestors_eq_of_line (hg : s.groups.get? id = some g) (hline : Line s g.parent line) :
    s.ancestors id = .ok line := by
  have hclimb : s.climb id s.groups.size [id] g.parent = .ok line := by
    refine hline.climb_eq (Nat.le_of_lt (length_line_lt hg hline)) ?_
    intro p hp hmem
    rw [List.mem_singleton.1 hmem] at hp
    exact not_mem_line hg hline hp
  rw [ancestors, get_eq_ok_iff.2 hg]
  exact hclimb

theorem Forest.line_of_stored (h : Forest s) {parent : Option GroupId}
    (hparent : ∀ p, parent = some p → s.groups.contains p = true) : ∃ line, Line s parent line := by
  cases parent with
  | none => exact ⟨[], .root⟩
  | some p =>
    obtain ⟨g, hg⟩ := Dict.contains_iff.1 (hparent p rfl)
    obtain ⟨line, hline⟩ := h p g hg
    exact ⟨p :: line, .up hg hline⟩

/-- A move that is not refused leads to a line without the group that moves. -/
theorem line_of_checkMove {parent : Option GroupId} (hforest : Forest s)
    (hmove : s.checkMove id parent = .ok ()) : ∃ line, Line s parent line ∧ id ∉ line := by
  cases parent with
  | none => exact ⟨[], .root, List.not_mem_nil⟩
  | some p =>
    obtain ⟨_, above, habove, hcycle⟩ :=
      Result.check_eq_ok_iff.1 hmove |>.imp_right Result.bind_eq_ok_iff.1
    obtain ⟨g, hg⟩ := Dict.contains_iff.1 (parent_stored_of_checkMove hmove rfl)
    obtain ⟨line, hline⟩ := hforest p g hg
    have heq : above = line := Except.ok.inj (habove.symm.trans (ancestors_eq_of_line hg hline))
    rw [heq, Result.guard_eq_ok_iff] at hcycle
    refine ⟨p :: line, .up hg hline, ?_⟩
    intro hid
    refine hcycle.1 (List.mem_append.2 ?_)
    rcases List.mem_cons.1 hid with rfl | hid
    · exact Or.inr (List.mem_cons_self ..)
    · exact Or.inl hid

/-- A new group hangs below a stored one or is a root, so its line is that of its parent with the
parent in front. -/
theorem Forest.save (h : Forest s) (hs : s.save g = .ok s') : Forest s' := by
  obtain ⟨_, hid, _, hparent, rfl⟩ := save_eq_ok_iff.1 hs
  rw [Dict.contains_eq_false_iff] at hid
  intro id k hk
  have hold : ∃ line, Line s k.parent line := by
    rcases Dict.get?_insert_eq_some_iff.1 hk with ⟨_, rfl⟩ | ⟨_, hk⟩
    · exact h.line_of_stored hparent
    · exact h id k hk
  obtain ⟨line, hline⟩ := hold
  refine ⟨line, hline.congr fun p _ q hq => ⟨q, ?_, rfl⟩⟩
  refine Dict.get?_insert_eq_some_iff.2 (Or.inr ⟨?_, hq⟩)
  intro he
  rw [he, hid] at hq
  cases hq

/-- No line leads through a group without children, so its deletion breaks none. -/
theorem Forest.delete (h : Forest s) (hn : Nested s) (hs : s.delete id = .ok s') : Forest s' := by
  obtain ⟨g, hg, hchildren, _, rfl⟩ := delete_eq_ok_iff.1 hs
  have hleaf : ∀ c k, s.groups.get? c = some k → k.parent ≠ some id := by
    intro c k hk hp
    have hc := hn.children_iff.2 ⟨k, hk, hp⟩
    rw [hchildren] at hc
    cases hc
  intro c k hk
  have hkold := (Dict.get?_erase_eq_some_iff.1 hk).2
  obtain ⟨line, hline⟩ := h c k hkold
  refine ⟨line, hline.congr fun p hp q hq => ⟨q, Dict.get?_erase_eq_some_iff.2 ⟨?_, hq⟩, rfl⟩⟩
  rintro rfl
  rcases hline.start_or_parent hp with hstart | ⟨d, j, hj, hparent⟩
  · exact hleaf c k hkold hstart
  · exact hleaf d j hj hparent

/-- After a group has got another line, every group below it goes on along that one. -/
theorem Forest.of_line (h : Forest s) (hg : s'.groups.get? id = some g)
    (hline : Line s' g.parent line) (hsame : ∀ p, p ≠ id → ∀ g', s.groups.get? p = some g' →
      ∃ k, s'.groups.get? p = some k ∧ k.parent = g'.parent)
    (hback : ∀ p, p ≠ id → ∀ k, s'.groups.get? p = some k →
      ∃ g', s.groups.get? p = some g' ∧ g'.parent = k.parent) : Forest s' := by
  intro c k hk
  by_cases hc : c = id
  · subst hc
    cases hg.symm.trans hk
    exact ⟨line, hline⟩
  · obtain ⟨k', hk', hparent⟩ := hback c hc k hk
    obtain ⟨up, hup⟩ := h c k' hk'
    rw [← hparent]
    by_cases hid : id ∈ up
    · obtain ⟨below, rest, rfl, hnot, _⟩ := hup.split hid
      refine ⟨below ++ id :: line, hup.splice ?_ (.up hg hline)⟩
      intro q hq
      exact hsame q (fun he => hnot (he ▸ hq))
    · refine ⟨up, hup.congr ?_⟩
      intro q hq
      exact hsame q (fun he => hid (he ▸ hq))

/-- A move keeps a forest, because the new parent was found not to lie below the group. -/
theorem Forest.update {now : Instant} {r : Group × GroupStore} (h : Forest s)
    (hs : s.update g now = .ok r) :
    Forest r.2 := by
  obtain ⟨_, old, hold, _, _, hmove, rfl⟩ := update_eq_ok_iff.1 hs
  have hline : ∃ line, Line s g.parent line ∧ g.id ∉ line := by
    by_cases he : old.parent = g.parent
    · obtain ⟨line, hline⟩ := h g.id old hold
      exact ⟨line, he ▸ hline, not_mem_line hold hline⟩
    · exact line_of_checkMove h (hmove he)
  obtain ⟨line, hline, hnot⟩ := hline
  have hother : ∀ {p}, p ≠ g.id →
      (s.groups.insert g.id (updated old g now)).get? p = s.groups.get? p :=
    fun hp => Dict.get?_insert_ne s.groups hp _
  refine h.of_line (Dict.get?_insert_self _ _ _) (?_ : Line _ g.parent line) ?_ ?_
  · refine hline.congr fun p hp k hk => ⟨k, ?_, rfl⟩
    exact (hother fun he => hnot (he ▸ hp)).trans hk
  · intro p hp k hk
    exact ⟨k, (hother hp).trans hk, rfl⟩
  · intro p hp k hk
    exact ⟨k, (hother hp).symm.trans hk, rfl⟩

structure Sound (s : GroupStore) : Prop extends Valid s where
  forest : Forest s

theorem Sound.change (h : Sound s) (hs : s.Change s') : Sound s' := by
  refine ⟨h.toValid.change hs, ?_⟩
  cases hs with
  | save hs => exact h.forest.save hs
  | update hs => exact h.forest.update hs
  | delete hs => exact h.forest.delete h.toNested hs
  | assign hs =>
    obtain ⟨_, _, rfl⟩ := assign_eq_ok_iff.1 hs
    exact h.forest.of_groups_eq rfl
  | unassign hs =>
    obtain ⟨_, rfl⟩ := unassign_eq_ok_iff.1 hs
    exact h.forest.of_groups_eq rfl

theorem sound_afterAll (calls : List StoreCall) : Sound (Stores.empty.afterAll calls).groups :=
  Stores.groups_afterAll ⟨valid_empty, forest_empty⟩ (fun _ _ h hs => h.change hs) calls

end AccessControl.GroupStore
