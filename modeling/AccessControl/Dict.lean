/-! # Dictionaries

Finite maps whose entries are kept in the order of their keys, so that two dictionaries with the
same bindings are equal. A key is told from others by a list of texts, and those lists give the
order.
-/
namespace AccessControl

class Indexed (κ : Type) where
  parts : κ → List String
  parts_inj : ∀ {a b : κ}, parts a = parts b → a = b

instance : Indexed String where
  parts s := [s]
  parts_inj h := by simpa using h

namespace Dict

variable {κ β : Type} [Indexed κ]

def Before (a b : κ) : Prop := Indexed.parts a < Indexed.parts b

instance (a b : κ) : Decidable (Before a b) :=
  inferInstanceAs (Decidable (Indexed.parts a < Indexed.parts b))

theorem Before.irrefl (a : κ) : ¬ Before a a := List.lt_irrefl _

theorem Before.trans {a b c : κ} (h : Before a b) (h' : Before b c) : Before a c :=
  List.lt_trans h h'

theorem Before.asymm {a b : κ} (h : Before a b) : ¬ Before b a := List.lt_asymm h

theorem eq_of_not_before {a b : κ} (h : ¬ Before a b) (h' : ¬ Before b a) : a = b :=
  Indexed.parts_inj (List.le_antisymm h' h)

def Sorted (entries : List (κ × β)) : Prop := entries.Pairwise fun a b => Before a.1 b.1

def insertEntry (k : κ) (v : β) : List (κ × β) → List (κ × β)
  | [] => [(k, v)]
  | (j, w) :: rest =>
    if Before k j then (k, v) :: (j, w) :: rest
    else if Before j k then (j, w) :: insertEntry k v rest
    else (k, v) :: rest

theorem mem_insertEntry {k : κ} {v : β} {entries : List (κ × β)} {e : κ × β}
    (h : e ∈ insertEntry k v entries) : e = (k, v) ∨ e ∈ entries := by
  induction entries with
  | nil => simpa [insertEntry] using h
  | cons f rest ih =>
    obtain ⟨j, w⟩ := f
    simp only [insertEntry] at h
    split at h
    · simpa using h
    · split at h
      · rcases List.mem_cons.1 h with h | h
        · exact .inr (h ▸ List.mem_cons_self ..)
        · exact (ih h).imp id (List.mem_cons_of_mem _)
      · rcases List.mem_cons.1 h with h | h
        · exact .inl h
        · exact .inr (List.mem_cons_of_mem _ h)

theorem sorted_insertEntry {entries : List (κ × β)} (h : Sorted entries) (k : κ) (v : β) :
    Sorted (insertEntry k v entries) := by
  induction entries with
  | nil => simp [insertEntry, Sorted]
  | cons f rest ih =>
    obtain ⟨j, w⟩ := f
    obtain ⟨hhead, htail⟩ := List.pairwise_cons.1 h
    simp only [insertEntry]
    split
    · rename_i hkj
      refine List.pairwise_cons.2 ⟨fun e he => ?_, h⟩
      rcases List.mem_cons.1 he with rfl | he
      · exact hkj
      · exact hkj.trans (hhead e he)
    · rename_i hkj
      split
      · rename_i hjk
        refine List.pairwise_cons.2 ⟨fun e he => ?_, ih htail⟩
        rcases mem_insertEntry he with rfl | he
        · exact hjk
        · exact hhead e he
      · rename_i hjk
        obtain rfl := eq_of_not_before hkj hjk
        exact List.pairwise_cons.2 ⟨hhead, htail⟩

end Dict

structure Dict (κ β : Type) [Indexed κ] where
  entries : List (κ × β)
  sorted : Dict.Sorted entries

namespace Dict

variable {κ β : Type} [Indexed κ]

def empty : Dict κ β := ⟨[], List.Pairwise.nil⟩

def isAt (k : κ) (e : κ × β) : Bool := Indexed.parts e.1 == Indexed.parts k

def get? (d : Dict κ β) (k : κ) : Option β := (d.entries.find? (isAt k)).map (·.2)

def contains (d : Dict κ β) (k : κ) : Bool := (d.get? k).isSome

def insert (d : Dict κ β) (k : κ) (v : β) : Dict κ β :=
  ⟨insertEntry k v d.entries, sorted_insertEntry d.sorted k v⟩

def erase (d : Dict κ β) (k : κ) : Dict κ β :=
  ⟨d.entries.filter fun e => !isAt k e, List.Pairwise.filter _ d.sorted⟩

def keys (d : Dict κ β) : List κ := d.entries.map (·.1)

def values (d : Dict κ β) : List β := d.entries.map (·.2)

def size (d : Dict κ β) : Nat := d.entries.length

def isEmpty (d : Dict κ β) : Bool := d.entries.isEmpty

theorem isAt_iff {k : κ} {e : κ × β} : isAt k e = true ↔ e.1 = k := by
  simp only [isAt, beq_iff_eq]
  exact ⟨Indexed.parts_inj, fun h => by rw [h]⟩

theorem isAt_self (k : κ) (v : β) : isAt k (k, v) = true := isAt_iff.2 rfl

theorem isAt_ne {k : κ} {e : κ × β} (h : e.1 ≠ k) : isAt k e = false := by
  simpa using mt isAt_iff.1 h

theorem find?_insertEntry_self (k : κ) (v : β) (entries : List (κ × β)) :
    (insertEntry k v entries).find? (isAt k) = some (k, v) := by
  induction entries with
  | nil => simp [insertEntry, isAt_self]
  | cons f rest ih =>
    obtain ⟨j, w⟩ := f
    simp only [insertEntry]
    split
    · simp [isAt_self]
    · split
      · rename_i hjk
        have hne : (j, w).1 ≠ k := fun h => Before.irrefl k (h ▸ hjk)
        simp [isAt_ne hne, ih]
      · simp [isAt_self]

theorem find?_insertEntry_ne {k j : κ} (hne : j ≠ k) (v : β) (entries : List (κ × β)) :
    (insertEntry k v entries).find? (isAt j) = entries.find? (isAt j) := by
  have hk : isAt j (k, v) = false := isAt_ne (Ne.symm hne)
  induction entries with
  | nil => simp [insertEntry, hk]
  | cons f rest ih =>
    obtain ⟨i, w⟩ := f
    simp only [insertEntry]
    split
    · rw [List.find?_cons, hk]
    · rename_i h1
      split
      · simp only [List.find?_cons]
        rw [ih]
      · rename_i h2
        have hi : isAt j (i, w) = false :=
          isAt_ne (by rw [← eq_of_not_before h1 h2]; exact Ne.symm hne)
        simp only [List.find?_cons, hk, hi]

@[simp] theorem get?_insert_self (d : Dict κ β) (k : κ) (v : β) :
    (d.insert k v).get? k = some v := by
  simp [get?, insert, find?_insertEntry_self]

theorem get?_insert_ne (d : Dict κ β) {k j : κ} (h : j ≠ k) (v : β) :
    (d.insert k v).get? j = d.get? j := by
  simp [get?, insert, find?_insertEntry_ne h]

@[simp] theorem get?_erase_self (d : Dict κ β) (k : κ) : (d.erase k).get? k = none := by
  simp only [get?, erase, Option.map_eq_none_iff, List.find?_eq_none]
  intro e he
  have := (List.mem_filter.1 he).2
  simpa using this

theorem get?_erase_ne (d : Dict κ β) {k j : κ} (h : j ≠ k) : (d.erase k).get? j = d.get? j := by
  simp only [get?, erase, List.find?_filter]
  congr 2
  funext e
  cases hj : isAt j e with
  | false => simp
  | true =>
    have : e.1 ≠ k := fun hk => h ((isAt_iff.1 hj).symm.trans hk)
    simp [isAt_ne this]

@[simp] theorem get?_empty (k : κ) : (empty : Dict κ β).get? k = none := rfl

theorem find?_of_mem {entries : List (κ × β)} (h : Sorted entries) {e : κ × β} (he : e ∈ entries) :
    entries.find? (isAt e.1) = some e := by
  induction entries with
  | nil => cases he
  | cons f rest ih =>
    obtain ⟨hhead, htail⟩ := List.pairwise_cons.1 h
    rcases List.mem_cons.1 he with rfl | he
    · simp [isAt_iff.2]
    · have hne : f.1 ≠ e.1 := fun hk => Before.irrefl e.1 (by simpa [hk] using hhead e he)
      simp [isAt_ne hne, ih htail he]

theorem get?_eq_some_iff {d : Dict κ β} {k : κ} {v : β} :
    d.get? k = some v ↔ (k, v) ∈ d.entries := by
  constructor
  · intro h
    obtain ⟨e, he, rfl⟩ := Option.map_eq_some_iff.1 h
    have hk := isAt_iff.1 (List.find?_some he)
    exact hk ▸ List.mem_of_find?_eq_some he
  · intro h
    simp [get?, find?_of_mem d.sorted h]

/-- Two lists of entries in order that hold the same entries are equal. -/
theorem Sorted.eq_of_mem_iff {a b : List (κ × β)} (ha : Sorted a) (hb : Sorted b)
    (h : ∀ e, e ∈ a ↔ e ∈ b) : a = b := by
  induction a generalizing b with
  | nil =>
    cases b with
    | nil => rfl
    | cons f _ => exact absurd ((h f).2 (List.mem_cons_self ..)) (by simp)
  | cons e rest ih =>
    obtain ⟨hea, hra⟩ := List.pairwise_cons.1 ha
    cases b with
    | nil => exact absurd ((h e).1 (List.mem_cons_self ..)) (by simp)
    | cons f rest' =>
      obtain ⟨hfb, hrb⟩ := List.pairwise_cons.1 hb
      have hef : e = f := by
        rcases List.mem_cons.1 ((h e).1 (List.mem_cons_self ..)) with he | he
        · exact he
        · rcases List.mem_cons.1 ((h f).2 (List.mem_cons_self ..)) with hf | hf
          · exact hf.symm
          · exact absurd (hea f hf) (Before.asymm (hfb e he))
      subst hef
      congr 1
      refine ih hra hrb fun x => ⟨fun hx => ?_, fun hx => ?_⟩
      · rcases List.mem_cons.1 ((h x).1 (List.mem_cons_of_mem _ hx)) with rfl | hx'
        · exact absurd (hea x hx) (Before.irrefl _)
        · exact hx'
      · rcases List.mem_cons.1 ((h x).2 (List.mem_cons_of_mem _ hx)) with rfl | hx'
        · exact absurd (hfb x hx) (Before.irrefl _)
        · exact hx'

/-- Dictionaries with the same bindings are equal. -/
theorem ext_get? {d d' : Dict κ β} (h : ∀ k, d.get? k = d'.get? k) : d = d' := by
  cases d with | mk a ha =>
  cases d' with | mk b hb =>
  congr 1
  refine ha.eq_of_mem_iff hb fun e => ?_
  rw [← get?_eq_some_iff (d := ⟨a, ha⟩), ← get?_eq_some_iff (d := ⟨b, hb⟩), h e.1]

/-- Puts a value under a key, or removes the key when there is none. -/
def set (d : Dict κ β) (k : κ) : Option β → Dict κ β
  | some v => d.insert k v
  | none => d.erase k

end Dict

abbrev TextSet := Dict String Unit

namespace TextSet

def add (s : TextSet) (x : String) : TextSet := Dict.insert s x ()

def toList (s : TextSet) : List String := Dict.keys s

def nonempty? (s : TextSet) : Option TextSet := if Dict.isEmpty s then none else some s

end TextSet

namespace Dict

variable {κ : Type} [Indexed κ]

def elements (index : Dict κ TextSet) (k : κ) : List String := ((index.get? k).getD .empty).toList

def enter (index : Dict κ TextSet) (k : κ) (x : String) : Dict κ TextSet :=
  index.insert k (((index.get? k).getD .empty).add x)

def forget (index : Dict κ TextSet) (k : κ) (x : String) : Dict κ TextSet :=
  match index.get? k with
  | some s => index.set k (TextSet.nonempty? (s.erase x))
  | none => index

end Dict
end AccessControl
