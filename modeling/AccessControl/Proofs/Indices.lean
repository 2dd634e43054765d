import AccessControl.Dict

/-! # Keys and elements of indices

Which keys a dictionary has, which elements an index has under a key, and how both change. An index
is filled when it keeps no key without elements; adding and taking out keep it so.
-/
namespace AccessControl

namespace Dict

variable {κ β : Type} [Indexed κ]

theorem contains_iff {d : Dict κ β} {k : κ} : d.contains k = true ↔ ∃ v, d.get? k = some v :=
  Option.isSome_iff_exists

theorem contains_eq_false_iff {d : Dict κ β} {k : κ} : d.contains k = false ↔ d.get? k = none := by
  simp [contains]

theorem contains_insert {d : Dict κ β} {k j : κ} {v : β} (h : d.contains j = true) :
    (d.insert k v).contains j = true := by
  by_cases hj : j = k
  · subst hj
    simp [contains]
  · rwa [contains, get?_insert_ne d hj]

theorem get?_insert_eq_some_iff {d : Dict κ β} {k j : κ} {v w : β} :
    (d.insert k v).get? j = some w ↔ (j = k ∧ v = w) ∨ (j ≠ k ∧ d.get? j = some w) := by
  by_cases h : j = k
  · subst h
    simp
  · simp [get?_insert_ne d h, h]

theorem get?_erase_eq_some_iff {d : Dict κ β} {k j : κ} {w : β} :
    (d.erase k).get? j = some w ↔ j ≠ k ∧ d.get? j = some w := by
  by_cases h : j = k
  · subst h
    simp
  · simp [get?_erase_ne d h, h]

theorem erase_insert {d : Dict κ β} {k : κ} (h : d.get? k = none) (v : β) :
    (d.insert k v).erase k = d := by
  apply ext_get?
  intro j
  by_cases hj : j = k
  · rw [hj, get?_erase_self, h]
  · rw [get?_erase_ne _ hj, get?_insert_ne d hj]

theorem mem_keys_iff {d : Dict κ β} {k : κ} : k ∈ d.keys ↔ ∃ v, d.get? k = some v := by
  constructor
  · intro h
    obtain ⟨e, he, rfl⟩ := List.mem_map.1 h
    exact ⟨e.2, get?_eq_some_iff.2 he⟩
  · rintro ⟨v, h⟩
    exact List.mem_map.2 ⟨(k, v), get?_eq_some_iff.1 h, rfl⟩

theorem mem_values_iff {d : Dict κ β} {v : β} : v ∈ d.values ↔ ∃ k, d.get? k = some v := by
  constructor
  · intro h
    obtain ⟨e, he, rfl⟩ := List.mem_map.1 h
    exact ⟨e.1, get?_eq_some_iff.2 he⟩
  · rintro ⟨k, h⟩
    exact List.mem_map.2 ⟨(k, v), get?_eq_some_iff.1 h, rfl⟩

/-- A dictionary with only some of the bindings has only their values, in the same order. -/
theorem values_eq_filter {d d' : Dict κ β} {keep : β → Bool}
    (h : ∀ k v, d'.get? k = some v ↔ d.get? k = some v ∧ keep v = true) :
    d'.values = d.values.filter keep := by
  have hentries : d'.entries = d.entries.filter fun e => keep e.2 := by
    refine d'.sorted.eq_of_mem_iff (d.sorted.filter _) fun e => ?_
    rw [List.mem_filter, ← get?_eq_some_iff, ← get?_eq_some_iff, h]
  rw [values, hentries, values, List.filter_map]
  rfl

/-- Texts are in order as keys where they are in order. -/
theorem lt_of_before {a b : String} (h : Before a b) : a < b := by
  rcases List.cons_lt_cons_iff.1 h with h | ⟨_, h⟩
  · exact h
  · exact absurd h (List.not_lt_nil _)

theorem keys_sorted (d : Dict κ β) : d.keys.Pairwise Before := List.pairwise_map.2 d.sorted

theorem length_keys (d : Dict κ β) : d.keys.length = d.size := List.length_map _

theorem isEmpty_eq_true_iff {d : Dict κ β} : d.isEmpty = true ↔ ∀ k, d.get? k = none := by
  constructor
  · intro h k
    have he : d.entries = [] := List.isEmpty_iff.1 h
    simp [get?, he]
  · intro h
    apply List.isEmpty_iff.2
    apply List.eq_nil_iff_forall_not_mem.2
    intro e he
    have hk := get?_eq_some_iff.2 he
    rw [h e.1] at hk
    cases hk

end Dict

namespace TextSet

@[simp] theorem mem_toList_iff {s : TextSet} {x : String} : x ∈ s.toList ↔ s.get? x = some () := by
  rw [toList, Dict.mem_keys_iff]
  exact ⟨fun ⟨_, h⟩ => h, fun h => ⟨(), h⟩⟩

theorem toList_sorted (s : TextSet) : s.toList.Pairwise Dict.Before := Dict.keys_sorted s

theorem get?_add {s : TextSet} {x y : String} :
    (s.add x).get? y = some () ↔ y = x ∨ s.get? y = some () := by
  rw [add, Dict.get?_insert_eq_some_iff]
  by_cases h : y = x <;> simp [h]

theorem ext_get? {s t : TextSet} (h : ∀ x, s.get? x = some () ↔ t.get? x = some ()) : s = t := by
  apply Dict.ext_get?
  intro x
  have hx := h x
  cases hs : s.get? x <;> cases ht : t.get? x <;> simp [hs, ht] at hx ⊢

theorem nonempty?_eq_some_iff {s t : TextSet} :
    s.nonempty? = some t ↔ s = t ∧ Dict.isEmpty s = false := by
  cases h : Dict.isEmpty s <;> simp [nonempty?, h]

theorem nonempty?_eq_none_iff {s : TextSet} : s.nonempty? = none ↔ ∀ x, s.get? x = none := by
  rw [← Dict.isEmpty_eq_true_iff]
  cases h : Dict.isEmpty s <;> simp [nonempty?, h]

end TextSet

namespace Dict

variable {κ : Type} [Indexed κ] {index : Dict κ TextSet} {k j : κ} {x y : String}

theorem mem_elements_iff :
    x ∈ index.elements k ↔ ∃ s, index.get? k = some s ∧ s.get? x = some () := by
  rw [elements, TextSet.mem_toList_iff]
  cases h : index.get? k with
  | none => simp
  | some s => simp

theorem elements_sorted (index : Dict κ TextSet) (k : κ) : (index.elements k).Pairwise Before :=
  TextSet.toList_sorted _

/-- Sets of texts in order are determined by their elements. -/
theorem eq_of_sorted_of_mem_iff {a b : List String} (ha : a.Pairwise Before)
    (hb : b.Pairwise Before) (h : ∀ x, x ∈ a ↔ x ∈ b) : a = b := by
  have hpair : ∀ {l : List String}, l.Pairwise Before → Sorted (l.map fun x => (x, ())) := by
    intro l hl
    exact List.pairwise_map.2 hl
  have heq := (hpair ha).eq_of_mem_iff (hpair hb) fun e => by simp [h]
  have hmap := congrArg (List.map Prod.fst) heq
  simpa [Function.comp_def] using hmap

theorem mem_elements_enter :
    y ∈ (index.enter k x).elements j ↔ (j = k ∧ y = x) ∨ y ∈ index.elements j := by
  rw [enter, elements]
  by_cases h : j = k
  · subst h
    simp [TextSet.get?_add, elements]
  · simp [get?_insert_ne index h, h, elements]

/-- To forget an element leaves all others under all keys, also when the last one takes the key with
it. -/
theorem mem_elements_forget :
    y ∈ (index.forget k x).elements j ↔ y ∈ index.elements j ∧ ¬(j = k ∧ y = x) := by
  cases hk : index.get? k with
  | none =>
    have hnot : j = k → y ∉ index.elements j := by
      rintro rfl hy
      obtain ⟨s, hs, _⟩ := mem_elements_iff.1 hy
      rw [hk] at hs
      cases hs
    simp only [forget, hk]
    exact ⟨fun hy => ⟨hy, fun h => hnot h.1 hy⟩, And.left⟩
  | some s =>
    simp only [forget, hk, set]
    by_cases h : j = k
    · subst h
      cases hn : TextSet.nonempty? (s.erase x) with
      | none =>
        have hnone := TextSet.nonempty?_eq_none_iff.1 hn y
        by_cases hyx : y = x
        · simp [mem_elements_iff, hyx]
        · rw [get?_erase_ne s hyx] at hnone
          simp [mem_elements_iff, hk, hnone]
      | some t =>
        obtain ⟨rfl, _⟩ := TextSet.nonempty?_eq_some_iff.1 hn
        simp only [mem_elements_iff, get?_insert_self, hk, Option.some.injEq, exists_eq_left',
          get?_erase_eq_some_iff, true_and]
        exact and_comm
    · cases hn : TextSet.nonempty? (s.erase x) with
      | none => simp [mem_elements_iff, get?_erase_ne index h, h]
      | some t => simp [mem_elements_iff, get?_insert_ne index h, h]

theorem mem_elements_erase : y ∈ (index.erase k).elements j ↔ y ∈ index.elements j ∧ j ≠ k := by
  simp only [mem_elements_iff, get?_erase_eq_some_iff]
  constructor
  · rintro ⟨s, ⟨hj, hs⟩, hy⟩
    exact ⟨⟨s, hs, hy⟩, hj⟩
  · rintro ⟨⟨s, hs, hy⟩, hj⟩
    exact ⟨s, ⟨hj, hs⟩, hy⟩

def Filled (index : Dict κ TextSet) : Prop := ∀ k s, index.get? k = some s → Dict.isEmpty s = false

theorem filled_empty : Filled (empty : Dict κ TextSet) := by
  intro k s h
  simp at h

theorem Filled.enter (h : Filled index) (k : κ) (x : String) : Filled (index.enter k x) := by
  intro j s hj
  rcases get?_insert_eq_some_iff.1 hj with ⟨_, rfl⟩ | ⟨_, hs⟩
  · apply Bool.eq_false_iff.2
    intro he
    have hx := isEmpty_eq_true_iff.1 he x
    rw [TextSet.get?_add.2 (Or.inl rfl)] at hx
    cases hx
  · exact h j s hs

theorem Filled.erase (h : Filled index) (k : κ) : Filled (index.erase k) := by
  intro j s hj
  exact h j s (get?_erase_eq_some_iff.1 hj).2

theorem Filled.forget (h : Filled index) (k : κ) (x : String) : Filled (index.forget k x) := by
  cases hk : index.get? k with
  | none => simpa only [Dict.forget, hk] using h
  | some s =>
    cases hn : TextSet.nonempty? (s.erase x) with
    | none => simpa only [Dict.forget, hk, hn, set] using h.erase k
    | some t =>
      obtain ⟨rfl, ht⟩ := TextSet.nonempty?_eq_some_iff.1 hn
      intro j u hj
      simp only [Dict.forget, hk, hn, set] at hj
      rcases get?_insert_eq_some_iff.1 hj with ⟨_, rfl⟩ | ⟨_, hu⟩
      · exact ht
      · exact h j u hu

/-- In an index without empty sets a key is missing exactly when nothing is under it. -/
theorem Filled.get?_eq_none_iff (h : Filled index) :
    index.get? k = none ↔ ∀ x, x ∉ index.elements k := by
  simp only [mem_elements_iff]
  constructor
  · intro hk x
    simp [hk]
  · intro hnone
    cases hk : index.get? k with
    | none => rfl
    | some s =>
      have hempty : Dict.isEmpty s = true := by
        refine isEmpty_eq_true_iff.2 fun x => ?_
        cases hx : s.get? x with
        | none => rfl
        | some _ => exact absurd ⟨s, hk, hx⟩ (hnone x)
      rw [h k s hk] at hempty
      cases hempty

/-- Filled indices are determined by their elements. -/
theorem Filled.ext {other : Dict κ TextSet} (h : Filled index) (h' : Filled other)
    (hsame : ∀ k x, x ∈ index.elements k ↔ x ∈ other.elements k) : index = other := by
  apply ext_get?
  intro k
  have hnone : index.get? k = none ↔ other.get? k = none := by
    simp only [h.get?_eq_none_iff, h'.get?_eq_none_iff, hsame]
  cases hs : index.get? k with
  | none => exact (hnone.1 hs).symm
  | some s =>
    cases ht : other.get? k with
    | none => cases hs.symm.trans (hnone.2 ht)
    | some t =>
      refine congrArg some (TextSet.ext_get? fun x => ?_)
      have hx := hsame k x
      simpa [mem_elements_iff, hs, ht] using hx

end Dict
end AccessControl
