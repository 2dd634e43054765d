import AccessControl.Proofs.Json.Documents

/-! # Free-form trees

What free-form fields hold: strings, truth values, nulls and 64-bit whole numbers in arrays and
objects, where an object has its fields in order of name and each name once. Putting such a tree in
order leaves it as it is, and fails exactly when the tree has more levels than it may have.
-/
namespace AccessControl.Value

inductive Canonical : Value → Prop
  | null : Canonical .null
  | bool (b : Bool) : Canonical (.bool b)
  | int {z : Int} (hleast : leastInt ≤ z) (hgreatest : z ≤ greatestInt) : Canonical (.int z)
  | string (s : String) : Canonical (.string s)
  | array {items : List Value} (h : ∀ v ∈ items, Canonical v) : Canonical (.array items)
  | object {fields : List (String × Value)} (hnames : fields.Pairwise fun f g => f.1 < g.1)
      (h : ∀ f ∈ fields, Canonical f.2) : Canonical (.object fields)

variable {v : Value} {name : String} {items : List Value} {fields done : List (String × Value)}

theorem Canonical.plain (h : v.Canonical) : v.Plain := by
  induction h with
  | null => exact .null
  | bool b => exact .bool b
  | int hleast hgreatest => exact .int hleast hgreatest
  | string s => exact .string s
  | array _ ih => exact .array ih
  | object _ _ ih => exact .object ih

mutual

def levels : Value → Nat
  | .array items => levelsOfItems items + 1
  | .object fields => levelsOfFields fields + 1
  | _ => 0

def levelsOfItems : List Value → Nat
  | [] => 0
  | v :: rest => max (levels v) (levelsOfItems rest)

def levelsOfFields : List (String × Value) → Nat
  | [] => 0
  | (_, v) :: rest => max (levels v) (levelsOfFields rest)

end

/-- Putting the value in order leaves it as it is, if it has no more levels than it may have. -/
def IsNormal (v : Value) : Prop :=
  ∀ depth, v.normalize depth = if v.levels ≤ depth then some v else none

theorem normalizeItems_eq (h : ∀ v ∈ items, v.IsNormal) (depth : Nat) :
    normalizeItems depth items = if levelsOfItems items ≤ depth then some items else none := by
  induction items with
  | nil => rfl
  | cons v items ih =>
    have htail := ih fun w hw => h w (List.mem_cons_of_mem _ hw)
    simp only [normalizeItems, levelsOfItems, h v (List.mem_cons_self ..) depth, htail, Nat.max_le]
    by_cases hv : v.levels ≤ depth
    · by_cases hrest : levelsOfItems items ≤ depth
      · simp only [hv, hrest, and_self, if_true, Option.bind_eq_bind, Option.bind_some]
        rfl
      · simp only [hv, hrest, and_false, if_true, if_false, Option.bind_eq_bind, Option.bind_some,
          Option.bind_none]
    · simp only [hv, false_and, if_false, Option.bind_eq_bind, Option.bind_none]

/-- A name that comes after all others is put at the end. -/
theorem insertField_last (h : ∀ f ∈ fields, f.1 < name) :
    insertField name v fields = fields ++ [(name, v)] := by
  induction fields with
  | nil => rfl
  | cons f fields ih =>
    have hf := h f (List.mem_cons_self ..)
    rw [insertField, if_neg (String.lt_asymm hf), if_pos hf, ih fun g hg =>
      h g (List.mem_cons_of_mem _ hg)]
    rfl

/-- Fields that are in order stay as they are, unless one of them has too many levels. -/
theorem normalizeFields_eq (hnames : (done ++ fields).Pairwise fun f g => f.1 < g.1)
    (h : ∀ f ∈ fields, f.2.IsNormal) (depth : Nat) :
    normalizeFields depth done fields = if levelsOfFields fields ≤ depth then some (done ++ fields)
      else none := by
  induction fields generalizing done with
  | nil =>
    rw [List.append_nil]
    rfl
  | cons f fields ih =>
    obtain ⟨name, v⟩ := f
    have hlast : insertField name v done = done ++ [(name, v)] :=
      insertField_last fun f hf =>
        (List.pairwise_append.1 hnames).2.2 f hf _ (List.mem_cons_self ..)
    rw [List.append_cons] at hnames
    have htail := ih hnames fun g hg => h g (List.mem_cons_of_mem _ hg)
    rw [← List.append_cons] at htail
    have hv := h (name, v) (List.mem_cons_self ..) depth
    simp only [normalizeFields, levelsOfFields, hv, Nat.max_le]
    by_cases hdepth : v.levels ≤ depth
    · simp only [hdepth, true_and, if_true, Option.bind_eq_bind, Option.bind_some, hlast, htail]
    · simp only [hdepth, false_and, if_false, Option.bind_eq_bind, Option.bind_none]

/-- A canonical tree is in order already, at every level. -/
theorem Canonical.isNormal (h : v.Canonical) : v.IsNormal := by
  induction h with
  | null => exact fun _ => rfl
  | bool b => exact fun _ => rfl
  | int _ _ => exact fun _ => rfl
  | string s => exact fun _ => rfl
  | @array items _ ih =>
    intro depth
    cases depth with
    | zero => rfl
    | succ depth =>
      simp only [normalize, levels, normalizeItems_eq ih depth, Nat.add_le_add_iff_right]
      split <;> rfl
  | @object fields hnames _ ih =>
    intro depth
    cases depth with
    | zero => rfl
    | succ depth =>
      have hfields := normalizeFields_eq (show ([] ++ fields).Pairwise _ from hnames) ih depth
      simp only [normalize, levels, hfields, Nat.add_le_add_iff_right]
      split <;> rfl

end AccessControl.Value
