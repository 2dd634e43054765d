import AccessControl.Proofs.Json.Numbers
import AccessControl.Proofs.Json.Strings
import AccessControl.Proofs.Text.Octets

/-! # JSON documents read back

A tree without floating-point numbers is read from its compact text as itself. The induction is on
the tree; what follows a value in the text only has to end a number there, which commas, closing
brackets and the end of the text do.
-/
namespace AccessControl

/-- A tree of nothing but strings, truth values, nulls and 64-bit whole numbers in arrays and
objects. -/
inductive Value.Plain : Value → Prop
  | null : Plain .null
  | bool (b : Bool) : Plain (.bool b)
  | int {z : Int} (hleast : leastInt ≤ z) (hgreatest : z ≤ greatestInt) : Plain (.int z)
  | string (s : String) : Plain (.string s)
  | array {items : List Value} (h : ∀ v ∈ items, Plain v) : Plain (.array items)
  | object {fields : List (String × Value)} (h : ∀ f ∈ fields, Plain f.2) : Plain (.object fields)

namespace Json
open AccessControl.Text (Symbol)

variable {v : Value} {c : Char} {depth n : Nat} {rest : List Symbol}

theorem skipSpace_of_not_space (h : isJsonSpace c = false) :
    skipSpace (some c :: rest) = some c :: rest := by
  rw [skipSpace, h]
  rfl

theorem endsNumber_nil : EndsNumber [] := nofun

theorem endsNumber_mark (h : c ∈ [',', ']', '\x7d']) : EndsNumber (some c :: rest) := by
  intro d hd
  cases hd
  simp only [List.mem_cons, List.not_mem_nil, or_false] at h
  rcases h with rfl | rfl | rfl <;> decide

theorem ne_of_isDigit {d : Char} (hc : c.isDigit = true) (hd : d.isDigit = false) : c ≠ d := by
  rintro rfl
  rw [hc] at hd
  cases hd

theorem isJsonSpace_of_isDigit (hc : c.isDigit = true) : isJsonSpace c = false := by
  simp only [isJsonSpace, Bool.or_eq_false_iff, beq_eq_false_iff_ne]
  exact ⟨⟨⟨ne_of_isDigit hc rfl, ne_of_isDigit hc rfl⟩, ne_of_isDigit hc rfl⟩, ne_of_isDigit hc rfl⟩

theorem toDigits_eq_cons (n : Nat) : ∃ c cs, Nat.toDigits 10 n = c :: cs ∧ c.isDigit = true := by
  cases h : Nat.toDigits 10 n with
  | nil => exact absurd h Nat.toDigits_ne_nil
  | cons c cs => exact ⟨c, cs, rfl, isDigit_of_mem_toDigits (h ▸ List.mem_cons_self ..)⟩

theorem readValue_digits (h : n < wordLimit) (hrest : EndsNumber rest) :
    readValue (depth + 1) ((Nat.toDigits 10 n).map some ++ rest) = some (.int n, rest) := by
  have hnumeral := readNumeral_toDigits n false hrest
  obtain ⟨c, cs, hcs, hc⟩ := toDigits_eq_cons n
  rw [hcs, List.map_cons, List.cons_append] at hnumeral
  have hne : ∀ {d : Char}, d.isDigit = false → c ≠ d := ne_of_isDigit hc
  rw [hcs, List.map_cons, List.cons_append, readValue,
    skipSpace_of_not_space (isJsonSpace_of_isDigit hc)]
  simp only [hne (show '\x7b'.isDigit = false from rfl), hne (show '['.isDigit = false from rfl),
    hne (show '"'.isDigit = false from rfl), hne (show '-'.isDigit = false from rfl),
    hne (show 'n'.isDigit = false from rfl), hne (show 't'.isDigit = false from rfl),
    hne (show 'f'.isDigit = false from rfl), if_false, hnumeral, Option.map_some]
  rw [value_of_digits h false nofun]
  rfl

theorem readValue_minus (hpos : 0 < n) (hle : n ≤ 2 ^ 63) (hrest : EndsNumber rest) :
    readValue (depth + 1) (some '-' :: ((Nat.toDigits 10 n).map some ++ rest)) =
      some (.int (-n), rest) := by
  have hlimit : n < wordLimit := Nat.lt_of_le_of_lt hle (by decide)
  rw [readValue, skipSpace_of_not_space rfl]
  simp only [Char.reduceEq, if_false, if_true, readNumeral_toDigits n true hrest, Option.map_some]
  rw [value_of_digits hlimit true fun _ => ⟨hpos, hle⟩]
  rfl

/-- Whole numbers of 64 bits are read back as such and not as floating-point numbers. -/
theorem readValue_writeInt {z : Int} (hleast : Value.leastInt ≤ z)
    (hgreatest : z ≤ Value.greatestInt) (hrest : EndsNumber rest) :
    readValue (depth + 1) ((writeInt z).map some ++ rest) = some (.int z, rest) := by
  rw [writeInt]
  split
  · rename_i hz
    have hle : z.natAbs ≤ 2 ^ 63 := by
      simp only [Value.leastInt] at hleast
      omega
    rw [List.map_cons, List.cons_append, readValue_minus (by omega) hle hrest,
      show -(z.natAbs : Int) = z by omega]
  · rename_i hz
    have hlimit : z.natAbs < wordLimit := by
      simp only [Value.greatestInt] at hgreatest
      simp only [wordLimit, Nat.pow_eq]
      omega
    rw [readValue_digits hlimit hrest, show (z.natAbs : Int) = z by omega]

def ReadsBack (v : Value) : Prop :=
  ∀ depth rest, (write v).length ≤ depth → EndsNumber rest →
    readValue depth ((write v).map some ++ rest) = some (v, rest)

theorem endsNumber_writeItems (items : List Value) (rest : List Symbol) :
    EndsNumber ((writeItems items).map some ++ rest) := by
  cases items with
  | nil => exact endsNumber_mark (by decide)
  | cons v items => exact endsNumber_mark (by decide)

theorem endsNumber_writeFields (fields : List (String × Value)) (rest : List Symbol) :
    EndsNumber ((writeFields fields).map some ++ rest) := by
  cases fields with
  | nil => exact endsNumber_mark (by decide)
  | cons f fields => exact endsNumber_mark (by decide)

/-- The items of an array are read back in turn, with as many steps as their text has characters. -/
theorem readItems_write {items : List Value} (rest : List Symbol) (hv : ReadsBack v)
    (hitems : ∀ w ∈ items, ReadsBack w)
    (hdepth : (write v).length + (writeItems items).length ≤ depth) :
    readItems depth ((write v ++ writeItems items).map some ++ rest) = some (v :: items, rest) := by
  induction items generalizing v depth with
  | nil =>
    cases depth with
    | zero => simp only [writeItems, List.length_singleton] at hdepth; omega
    | succ depth =>
      have hread := hv depth _ (by simp only [writeItems, List.length_singleton] at hdepth; omega)
        (endsNumber_writeItems [] rest)
      rw [List.map_append, List.append_assoc, readItems, hread]
      rfl
  | cons w items ih =>
    cases depth with
    | zero => simp only [writeItems, List.length_append, List.length_cons] at hdepth; omega
    | succ depth =>
      simp only [writeItems, List.length_append, List.length_cons] at hdepth
      have hread := hv depth _ (by omega) (endsNumber_writeItems (w :: items) rest)
      have htail :=
        ih (hitems w (List.mem_cons_self ..)) (fun u hu => hitems u (List.mem_cons_of_mem _ hu))
        (show (write w).length + (writeItems items).length ≤ depth by omega)
      rw [List.map_append, List.append_assoc, readItems, hread]
      simp only [writeItems, List.cons_append, List.map_cons, Option.bind_eq_bind, Option.bind_some]
      rw [skipSpace_of_not_space rfl]
      simp only [htail, Option.bind_some]
      rfl

/-- A field is read as its name and its value; what follows tells whether it was the last. -/
theorem readFields_field (name : String) {tail : List Symbol}
    (hread : readValue depth ((write v).map some ++ tail) = some (v, tail)) :
    readFields (depth + 1) ((writeString name ++ ':' :: write v).map some ++ tail) =
      match skipSpace tail with
      | some ',' :: rest => do
        let (fields, rest) ← readFields depth rest
        return (do return (name, v) :: (← fields), rest)
      | some '\x7d' :: rest => some (some [(name, v)], rest)
      | _ => none := by
  simp only [List.map_append, map_writeString, List.append_assoc, List.cons_append,
    List.nil_append, List.map_cons]
  rw [readFields, skipSpace_of_not_space rfl]
  simp only [readString_escapes, Option.bind_eq_bind, Option.bind_some]
  rw [skipSpace_of_not_space rfl]
  simp only [hread, Option.bind_some]
  rfl

/-- The fields of an object are read back in turn, each name as a string and each value behind a
colon. -/
theorem readFields_write (name : String) {fields : List (String × Value)} (rest : List Symbol)
    (hv : ReadsBack v) (hfields : ∀ f ∈ fields, ReadsBack f.2)
    (hdepth : (write v).length + (writeFields fields).length ≤ depth) :
    readFields depth ((writeString name ++ ':' :: write v ++ writeFields fields).map some ++ rest) =
      some (some ((name, v) :: fields), rest) := by
  induction fields generalizing name v depth with
  | nil =>
    cases depth with
    | zero => simp only [writeFields, List.length_singleton] at hdepth; omega
    | succ depth =>
      have hread := hv depth _ (by simp only [writeFields, List.length_singleton] at hdepth; omega)
        (endsNumber_writeFields [] rest)
      rw [List.map_append, List.append_assoc, readFields_field name hread]
      rfl
  | cons f fields ih =>
    cases depth with
    | zero => simp only [writeFields, List.length_append, List.length_cons] at hdepth; omega
    | succ depth =>
      simp only [writeFields, List.length_append, List.length_cons] at hdepth
      have hread := hv depth _ (by omega) (endsNumber_writeFields (f :: fields) rest)
      have htail := ih f.1 (hfields f (List.mem_cons_self ..))
        (fun g hg => hfields g (List.mem_cons_of_mem _ hg))
        (show (write f.2).length + (writeFields fields).length ≤ depth by omega)
      rw [List.map_append, List.append_assoc, readFields_field name hread]
      simp only [writeFields, List.cons_append, List.map_cons]
      rw [skipSpace_of_not_space rfl]
      simp only [htail]
      rfl

/-- No value begins with a space, nor with the bracket that closes an empty array. -/
theorem write_eq_cons (h : v.Plain) :
    ∃ c cs, write v = c :: cs ∧ isJsonSpace c = false ∧ c ≠ ']' := by
  cases h with
  | null => exact ⟨_, _, rfl, rfl, by decide⟩
  | bool b => cases b <;> exact ⟨_, _, rfl, rfl, by decide⟩
  | string s => exact ⟨_, _, rfl, rfl, by decide⟩
  | @int z hleast hgreatest =>
    rw [write, writeInt]
    split
    · exact ⟨_, _, rfl, rfl, by decide⟩
    · obtain ⟨c, cs, hcs, hc⟩ := toDigits_eq_cons z.natAbs
      exact ⟨c, cs, hcs, isJsonSpace_of_isDigit hc, ne_of_isDigit hc rfl⟩
  | @array items hitems => cases items <;> exact ⟨_, _, rfl, rfl, by decide⟩
  | @object fields hfields => cases fields <;> exact ⟨_, _, rfl, rfl, by decide⟩

theorem exists_succ_of_write_le (h : v.Plain) (hdepth : (write v).length ≤ depth) :
    ∃ d, depth = d + 1 := by
  obtain ⟨c, cs, hcs, _⟩ := write_eq_cons h
  rw [hcs, List.length_cons] at hdepth
  exact ⟨depth - 1, by omega⟩

theorem readValue_array (hv : v.Plain) {text : List Symbol} :
    readValue (depth + 1) (some '[' :: ((write v).map some ++ text)) =
      (readItems depth ((write v).map some ++ text)).map fun (items, rest) =>
        (.array items, rest) := by
  obtain ⟨c, cs, hcs, hspace, hclose⟩ := write_eq_cons hv
  rw [hcs, List.map_cons, List.cons_append, readValue, skipSpace_of_not_space rfl]
  simp only [Char.reduceEq, if_false, if_true]
  rw [skipSpace_of_not_space hspace]
  split
  · rename_i h
    exact absurd (Option.some.inj (List.cons.inj h).1) hclose
  · rfl

theorem readValue_object {name : String} {text : List Symbol} :
    readValue (depth + 1) (some '\x7b' :: ((writeString name).map some ++ text)) =
      (readFields depth ((writeString name).map some ++ text)).map fun (fields, rest) =>
        ((fields.map Value.object).getD (.unreadable false), rest) := by
  rw [map_writeString, List.cons_append, readValue, skipSpace_of_not_space rfl]
  simp only [if_true]
  rw [skipSpace_of_not_space rfl]
  split
  · rename_i h
    cases h
  · cases readFields depth (some '"' :: _) <;> rfl

/-- A plain tree is read back from its text, by induction on the tree. -/
theorem readsBack (h : v.Plain) : ReadsBack v := by
  induction h with
  | null =>
    intro depth rest hdepth _
    obtain ⟨depth, rfl⟩ := exists_succ_of_write_le .null hdepth
    rfl
  | bool b =>
    intro depth rest hdepth _
    obtain ⟨depth, rfl⟩ := exists_succ_of_write_le (.bool b) hdepth
    cases b <;> rfl
  | @int z hleast hgreatest =>
    intro depth rest hdepth hrest
    obtain ⟨depth, rfl⟩ := exists_succ_of_write_le (.int hleast hgreatest) hdepth
    exact readValue_writeInt hleast hgreatest hrest
  | string s =>
    intro depth rest hdepth _
    obtain ⟨depth, rfl⟩ := exists_succ_of_write_le (.string s) hdepth
    rw [write, map_writeString, List.cons_append, List.append_assoc, readValue,
      skipSpace_of_not_space rfl]
    simp only [Char.reduceEq, if_false, if_true, List.singleton_append, readString_escapes,
      Option.map_some]
    rfl
  | @array items hplain ih =>
    intro depth rest hdepth _
    obtain ⟨depth, rfl⟩ := exists_succ_of_write_le (.array hplain) hdepth
    cases items with
    | nil => rfl
    | cons v items =>
      simp only [write, List.cons_append, List.length_cons, List.length_append] at hdepth
      have hitems := readItems_write rest (ih v (List.mem_cons_self ..))
        (fun w hw => ih w (List.mem_cons_of_mem _ hw))
        (show (write v).length + (writeItems items).length ≤ depth by omega)
      rw [List.map_append, List.append_assoc] at hitems
      rw [write, List.cons_append, List.map_cons, List.map_append, List.cons_append,
        List.append_assoc, readValue_array (hplain v (List.mem_cons_self ..)), hitems]
      rfl
  | @object fields hplain ih =>
    intro depth rest hdepth _
    obtain ⟨depth, rfl⟩ := exists_succ_of_write_le (.object hplain) hdepth
    cases fields with
    | nil => rfl
    | cons f fields =>
      simp only [write, List.cons_append, List.length_cons, List.length_append] at hdepth
      have hfields := readFields_write f.1 rest (ih f (List.mem_cons_self ..))
        (fun g hg => ih g (List.mem_cons_of_mem _ hg))
        (show (write f.2).length + (writeFields fields).length ≤ depth by omega)
      rw [List.append_assoc, List.map_append, List.append_assoc] at hfields
      rw [write, List.append_assoc, List.cons_append, List.map_cons, List.map_append,
        List.cons_append, List.append_assoc, readValue_object, hfields]
      rfl

theorem read_write (h : v.Plain) : read ((write v).map some) = some v := by
  have hread := readsBack h (2 * ((write v).map some).length + 2) []
    (by rw [List.length_map]; omega) endsNumber_nil
  rw [List.append_nil] at hread
  rw [read, hread]
  rfl

theorem readText_compact (h : v.Plain) : readText (compact v) = some v := by
  rw [readText, Text.symbolsOfText, compact, String.toList_ofList, read_write h]

theorem readOctets_write (h : v.Plain) :
    readOctets ((write v).flatMap Text.encodeChar) = some v := by
  rw [readOctets, Text.symbolsOf_encodeChars, read_write h]

end Json
end AccessControl
