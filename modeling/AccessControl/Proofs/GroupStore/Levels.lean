import AccessControl.Proofs.GroupStore.Descent

/-! # Descendants level by level

What lies below a group is listed as a row in which the children of each entry follow in its turn.
Children are one level deeper than their parent, so such a row runs through the levels one after
another, and the walk upward from each entry comes back to where the row started.
-/
namespace AccessControl.GroupStore

section Rows

variable {α : Type} {children : α → List α} {depth : α → Nat}

/-- Nothing repeats itself in its children, because it would lie deeper than anything. -/
theorem eq_nil_of_eq_flatMap {row : List α}
    (hchildren : ∀ p, ∀ c ∈ children p, depth c = depth p + 1) (hrow : row = row.flatMap children) :
    row = [] := by
  have hdeep : ∀ n, ∀ c ∈ row, n ≤ depth c := by
    intro n
    induction n with
    | zero => exact fun c _ => Nat.zero_le _
    | succ n ih =>
      intro c hc
      rw [hrow] at hc
      obtain ⟨p, hp, hcp⟩ := List.mem_flatMap.1 hc
      rw [hchildren p c hcp]
      exact Nat.succ_le_succ (ih p hp)
  refine List.eq_nil_iff_forall_not_mem.2 fun c hc => ?_
  exact Nat.not_succ_le_self _ (hdeep (depth c + 1) c hc)

/-- After a level comes nothing, or the next level and after that a shorter row. -/
theorem row_cases {level row : List α} (hchildren : ∀ p, ∀ c ∈ children p, depth c = depth p + 1)
    (hrow : row = (level ++ row).flatMap children) :
    level.flatMap children = [] ∧ row = [] ∨ level.flatMap children ≠ [] ∧ ∃ rest,
      row = level.flatMap children ++ rest ∧
        rest = (level.flatMap children ++ rest).flatMap children ∧
      rest.length < row.length := by
  rw [List.flatMap_append] at hrow
  by_cases hlast : level.flatMap children = []
  · left
    rw [hlast, List.nil_append] at hrow
    exact ⟨hlast, eq_nil_of_eq_flatMap hchildren hrow⟩
  · right
    refine ⟨hlast, row.flatMap children, hrow, by rw [← hrow], ?_⟩
    rw [congrArg List.length hrow, List.length_append]
    exact Nat.lt_add_of_pos_left (List.length_pos_iff.2 hlast)

/-- A level, followed by the children of everything in the row, goes on level by level. -/
theorem pairwise_depth_of_row {level row : List α} {d : Nat}
    (hchildren : ∀ p, ∀ c ∈ children p, depth c = depth p + 1) (hlevel : ∀ x ∈ level, depth x = d)
    (hrow : row = (level ++ row).flatMap children) :
    (level ++ row).Pairwise (fun a b => depth a ≤ depth b) ∧ ∀ x ∈ row, d + 1 ≤ depth x := by
  have hsame : level.Pairwise fun a b => depth a ≤ depth b :=
    List.pairwise_of_forall_mem_list fun a ha b hb =>
      Nat.le_of_eq ((hlevel a ha).trans (hlevel b hb).symm)
  obtain ⟨-, hnil⟩ | ⟨-, rest, hsplit, hrest, hshorter⟩ := row_cases hchildren hrow
  · rw [hnil, List.append_nil]
    exact ⟨hsame, nofun⟩
  · have hnext : ∀ x ∈ level.flatMap children, depth x = d + 1 := by
      intro x hx
      obtain ⟨p, hp, hxp⟩ := List.mem_flatMap.1 hx
      rw [hchildren p x hxp, hlevel p hp]
    obtain ⟨hsorted, hdeeper⟩ := pairwise_depth_of_row hchildren hnext hrest
    have hdeep : ∀ x ∈ level.flatMap children ++ rest, d + 1 ≤ depth x := by
      intro x hx
      rcases List.mem_append.1 hx with hx | hx
      · exact Nat.le_of_eq (hnext x hx).symm
      · exact Nat.le_of_succ_le (hdeeper x hx)
    rw [hsplit]
    refine ⟨List.pairwise_append.2 ⟨hsame, hsorted, fun a ha b hb => ?_⟩, hdeep⟩
    rw [hlevel a ha]
    exact Nat.le_of_succ_le (hdeep b hb)
termination_by row.length
decreasing_by exact hshorter

/-- Only one row can come after a level. -/
theorem row_unique {level row other : List α}
    (hchildren : ∀ p, ∀ c ∈ children p, depth c = depth p + 1)
    (hrow : row = (level ++ row).flatMap children)
    (hother : other = (level ++ other).flatMap children) :
    row = other := by
  obtain ⟨hlast, hnil⟩ | ⟨hnext, rest, hsplit, hrest, hshorter⟩ := row_cases hchildren hrow <;>
    obtain ⟨hlast', hnil'⟩ | ⟨hnext', rest', hsplit', hrest', -⟩ := row_cases hchildren hother
  · rw [hnil, hnil']
  · exact absurd hlast hnext'
  · exact absurd hlast' hnext
  · rw [hsplit, hsplit', row_unique hchildren hrest hrest']
termination_by row.length
decreasing_by exact hshorter

end Rows

variable {s : GroupStore} {g : Group} {id c p : GroupId} {ids : List GroupId}

theorem Named.mem_records_iff (h : Named s) :
    g ∈ s.records ids ↔ g.id ∈ ids ∧ s.groups.get? g.id = some g := by
  rw [records, List.mem_filterMap]
  constructor
  · rintro ⟨id, hid, hg⟩
    obtain rfl := h.id_of_get hg
    exact ⟨hid, hg⟩
  · rintro ⟨hid, hg⟩
    exact ⟨g.id, hid, hg⟩

theorem records_flatMap (s : GroupStore) (below : GroupId → List GroupId) (ids : List GroupId) :
    s.records (ids.flatMap below) = ids.flatMap fun id => s.records (below id) :=
  List.filterMap_flatMap ..

theorem Forest.above_of_parentOf (h : Forest s) (hc : s.parentOf c = some p) :
    s.above c = p :: s.above p := by
  rw [h.above_eq, hc]
  rfl

/-- What is above a group goes on, from each group there, with what is above that one. -/
theorem Forest.above_split (h : Forest s) (hp : p ∈ s.above c) :
    ∃ below, s.above c = below ++ p :: s.above p ∧ p ∉ below := by
  obtain ⟨below, rest, hsplit, hnot, hline⟩ := (h.line_above c).split hp
  refine ⟨below, ?_, hnot⟩
  cases hline with
  | up hg hrest =>
    rw [← parentOf_eq hg] at hrest
    rw [hsplit, hrest.unique (h.line_above p)]

theorem Forest.idxOf_above (h : Forest s) (hp : p ∈ s.above c) :
    (s.above c).idxOf p + 1 + (s.above p).length = (s.above c).length := by
  obtain ⟨below, hsplit, hnot⟩ := h.above_split hp
  rw [hsplit, List.idxOf_append_of_notMem hnot, List.idxOf_cons_self, List.length_append,
    List.length_cons]
  omega

theorem Sound.length_above_of_child (h : Sound s) (p c : GroupId) (hc : c ∈ s.childrenOf p) :
    (s.above c).length = (s.above p).length + 1 := by
  rw [h.forest.above_of_parentOf ((mem_childrenOf_iff h.toNested).1 hc)]
  rfl

theorem Sound.pairwise_depth (h : Sound s) {found : List GroupId}
    (d : Descent s id (id :: found) [] found) :
    found.Pairwise fun a b => (s.above a).idxOf id ≤ (s.above b).idxOf id := by
  have hlevel : ∀ x ∈ [id], (s.above x).length = (s.above id).length := by
    intro x hx
    rw [List.mem_singleton.1 hx]
  obtain ⟨hsorted, -⟩ := pairwise_depth_of_row h.length_above_of_child hlevel d.children
  refine (List.pairwise_cons.1 hsorted).2.imp_of_mem fun {a b} ha hb hle => ?_
  have habove : ∀ c ∈ found, id ∈ s.above c := fun c hc => h.forest.mem_above_iff.2 (d.below c hc)
  have hda := h.forest.idxOf_above (habove a ha)
  have hdb := h.forest.idxOf_above (habove b hb)
  omega

/-- After every run the descendants of a stored group are listed without repetitions and without the
group itself. They are just the groups that have it among their ancestors, in the order of the
children of the group and of the children of each of them, so their depth never decreases. -/
theorem descendants_level_by_level (calls : List StoreCall) (id : GroupId) (g : Group)
    (hg : (Stores.empty.afterAll calls).groups.get id = .ok g) :
    let s := (Stores.empty.afterAll calls).groups
    ∃ below children, s.retrieveDescendants id = .ok below ∧ (Stores.ids below).Nodup ∧
      id ∉ Stores.ids below ∧
      (∀ d, d ∈ below ↔ s.get d.id = .ok d ∧ ∃ up, s.retrieveAncestors d.id = .ok up ∧ g ∈ up) ∧
      (∀ x ∈ g :: below, s.retrieveChildren x.id = .ok (children x)) ∧
        below = (g :: below).flatMap children ∧
      below.Pairwise fun a b => ∀ up up', s.retrieveAncestors a.id = .ok up →
        s.retrieveAncestors b.id = .ok up' →
        (Stores.ids up).idxOf id ≤ (Stores.ids up').idxOf id := by
  intro s
  have h : Sound s := sound_afterAll calls
  rw [get_eq_ok_iff] at hg
  have hid : s.groups.contains id = true := Dict.contains_iff.2 ⟨g, hg⟩
  have hgid : g.id = id := h.id_of_get hg
  obtain ⟨found, hfound, d⟩ := h.retrieveDescendants_eq_records hid
  have hstored : ∀ c ∈ found, s.groups.contains c = true := fun c hc => (d.below c hc).stored
  have hids : Stores.ids (s.records found) = found := h.ids_records hstored
  have hrecords : ∀ {x}, x ∈ s.records found → x.id ∈ found ∧ s.groups.get? x.id = some x :=
    fun hx => h.mem_records_iff.1 hx
  refine ⟨s.records found, fun x => s.records (s.childrenOf x.id), hfound, ?_, ?_, fun x => ?_,
    fun x hx => ?_, ?_, ?_⟩
  · rw [hids]
    exact (List.nodup_cons.1 d.nodup).2
  · rw [hids]
    exact (List.nodup_cons.1 d.nodup).1
  · rw [h.mem_records_iff, get_eq_ok_iff, d.mem_iff h.toNested, ← h.forest.mem_above_iff, and_comm]
    refine and_congr_right fun hx => ?_
    rw [h.retrieveAncestors_eq_records (Dict.contains_iff.2 ⟨x, hx⟩)]
    have hgup : g ∈ s.records (s.above x.id) ↔ id ∈ s.above x.id := by
      rw [h.mem_records_iff, hgid]
      exact and_iff_left hg
    simp only [Except.ok.injEq, exists_eq_left', hgup]
  · refine h.retrieveChildren_eq_records ?_
    rcases List.mem_cons.1 hx with rfl | hx
    · rwa [hgid]
    · exact hstored _ (hrecords hx).1
  · have hrow : (g :: s.records found).map (·.id) = id :: found := congrArg₂ List.cons hgid hids
    calc s.records found
      _ = s.records ((id :: found).flatMap s.childrenOf) := congrArg s.records d.children
      _ = (id :: found).flatMap fun i => s.records (s.childrenOf i) := s.records_flatMap _ _
      _ = (g :: s.records found).flatMap fun x => s.records (s.childrenOf x.id) := by
        rw [← hrow, List.flatMap_map]
  · have hsorted := h.pairwise_depth d
    rw [← hids, Stores.ids, List.pairwise_map] at hsorted
    refine hsorted.imp_of_mem fun {a b} ha hb hle up up' hup hup' => ?_
    have hline : ∀ {x up}, x ∈ s.records found → s.retrieveAncestors x.id = .ok up →
        Stores.ids up = s.above x.id := by
      intro x up hx hup
      rw [h.retrieveAncestors_eq_records (hstored _ (hrecords hx).1)] at hup
      rw [← Except.ok.inj hup]
      exact h.ids_records (h.forest.above_stored x.id)
    rwa [hline ha hup, hline hb hup']

def plainGroup (id : GroupId) (parent : Option GroupId) : Group :=
  ⟨id, "root", parent, id, "", [], ⟨0, 0⟩, ⟨0, 0⟩⟩

def sampleForest : List StoreCall :=
  [.saveGroup (plainGroup "company" none), .saveGroup (plainGroup "ops" (some "company")),
    .saveGroup (plainGroup "night" (some "ops")), .saveGroup (plainGroup "dev" (some "company")),
    .saveGroup (plainGroup "web" (some "dev"))]

theorem descendants_of_company :
    (Stores.empty.afterAll sampleForest).groups.get "company" = .ok (plainGroup "company" none) ∧
    let s := (Stores.empty.afterAll sampleForest).groups
    ∃ below children, s.retrieveDescendants "company" = .ok below ∧
      Stores.ids below = ["ops", "dev", "night", "web"] ∧
      below = (plainGroup "company" none :: below).flatMap children := by
  have hcompany : (Stores.empty.afterAll sampleForest).groups.get "company" =
    .ok (plainGroup "company" none) := rfl
  refine ⟨hcompany, ?_⟩
  intro s
  obtain ⟨below, children, hbelow, -, -, -, -, hrow, -⟩ :=
    descendants_level_by_level sampleForest "company" _ hcompany
  have hids : Stores.ids <$> s.retrieveDescendants "company" =
    .ok ["ops", "dev", "night", "web"] := by decide
  rw [hbelow] at hids
  exact ⟨below, children, hbelow, Except.ok.inj hids, hrow⟩

end AccessControl.GroupStore
