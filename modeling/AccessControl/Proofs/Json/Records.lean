import AccessControl.Json.Record
import Mathlib.Data.List.Nodup

/-! # Reading records

What a field that was read says of the value behind it. Of the fields of an object a layout keeps
those with its names, so looking up one of these gives what the object has. Fields whose names stand
in the order of the layout are all kept.
-/
namespace AccessControl

namespace Value

variable {name : String} {v : Value} {fields : List (String × Value)}

theorem lookup_filter {p : String → Bool} (h : p name = true) :
    lookup name (fields.filter fun f => p f.1) = lookup name fields := by
  induction fields with
  | nil => rfl
  | cons f fields ih =>
    obtain ⟨n, v⟩ := f
    rw [List.filter_cons]
    by_cases hn : n = name
    · subst hn
      rw [if_pos h, lookup, lookup, if_pos rfl, if_pos rfl]
    · rw [lookup, if_neg hn, ← ih]
      split
      · rw [lookup, if_neg hn]
      · rfl

theorem orElse_eq_some_iff {α : Type} {f : Value → Option α} {default a : α} :
    orElse name f default fields = some a ↔
      (∃ v, lookup name fields = some v ∧ f v = some a) ∨ lookup name fields = none ∧
        a = default := by
  rw [orElse]
  cases lookup name fields with
  | none =>
    simp only [Option.some.injEq, reduceCtorEq, false_and, exists_false, true_and,
      false_or, eq_comm]
  | some v => simp only [Option.some.injEq, exists_eq_left', reduceCtorEq, false_and, or_false]

theorem asOption_eq_some_iff {α : Type} {f : Value → Option α} {o : Option α}
    (hnull : f .null = none) :
    asOption f v = some o ↔ v = .null ∧ o = none ∨ ∃ a, f v = some a ∧ o = some a := by
  by_cases hv : v = .null
  · subst hv
    simp only [asOption, hnull, Option.some.injEq, true_and, reduceCtorEq, false_and, exists_false,
      or_false, eq_comm]
  · have hread : asOption f v = (f v).map some := by
      cases v with
      | null => exact absurd rfl hv
      | _ => rfl
    rw [hread, Option.map_eq_some_iff]
    simp only [hv, false_and, false_or, @eq_comm _ o]

theorem asString_eq_some_iff {s : String} : asString v = some s ↔ v = .string s := by
  cases v with
  | string r => simp only [asString, Option.some.injEq, string.injEq]
  | _ => simp only [asString, reduceCtorEq]

theorem asInt_eq_some_iff {least greatest z : Int} :
    asInt least greatest v = some z ↔ v = .int z ∧ least ≤ z ∧ z ≤ greatest := by
  cases v with
  | int y =>
    simp only [asInt, Option.ite_none_right_eq_some, Option.some.injEq, int.injEq]
    constructor
    · rintro ⟨h, rfl⟩
      exact ⟨rfl, h⟩
    · rintro ⟨rfl, h⟩
      exact ⟨h, rfl⟩
  | _ => simp only [asInt, reduceCtorEq, false_and]

theorem asNat_eq_some_iff {greatest n : Nat} :
    asNat greatest v = some n ↔ v = .int n ∧ n ≤ greatest := by
  simp only [asNat, Option.map_eq_some_iff, asInt_eq_some_iff]
  constructor
  · rintro ⟨z, ⟨rfl, hpos, hle⟩, rfl⟩
    exact ⟨by rw [Int.toNat_of_nonneg hpos], by omega⟩
  · rintro ⟨rfl, hle⟩
    exact ⟨n, ⟨rfl, by omega, by omega⟩, rfl⟩

end Value

namespace Layout

variable {l : Layout} {v : Value} {name : String} {fields known : List (String × Value)}

theorem lookup_of_pick (h : l.pick fields = some known) (hname : name ∈ l.names) :
    Value.lookup name known = Value.lookup name fields := by
  have hfilter : known = fields.filter fun f => decide (f.1 ∈ l.names) := by
    rw [pick] at h
    split at h
    · cases h
    split at h
    · cases h
    split at h
    · exact (Option.some.inj h).symm
    · cases h
  rw [hfilter]
  exact Value.lookup_filter (p := fun n => decide (n ∈ l.names)) (decide_eq_true hname)

theorem orElse_of_pick {α : Type} {f : Value → Option α} {default : α}
    (h : l.pick fields = some known) (hname : name ∈ l.names) :
    Value.orElse name f default known = Value.orElse name f default fields := by
  rw [Value.orElse, Value.orElse, lookup_of_pick h hname]

/-- Nothing is left out of an object that has some of the fields in their order, where none is
required. -/
theorem pick_of_sublist (hnames : (fields.map (·.1)).Sublist l.names) (hnodup : l.names.Nodup)
    (hopen : l.closed = false) (hfree : ∀ f ∈ l.fields, f.2 ≠ .required) :
    l.pick fields = some fields := by
  have hfilter : (fields.filter fun f => decide (f.1 ∈ l.names)) = fields := by
    rw [List.filter_eq_self]
    intro f hf
    exact decide_eq_true (hnames.subset (List.mem_map_of_mem hf))
  have hall :
      (l.fields.all fun f => f.2 != .required || (Value.lookup f.1 fields).isSome) = true := by
    rw [List.all_eq_true]
    intro f hf
    rw [bne_iff_ne.2 (hfree f hf), Bool.true_or]
  rw [pick, hfilter]
  simp only [decide_eq_true (hnames.nodup hnodup), hopen, hall, Bool.not_true, Bool.false_and,
    Bool.false_eq_true, if_false, if_true]

end Layout
end AccessControl
