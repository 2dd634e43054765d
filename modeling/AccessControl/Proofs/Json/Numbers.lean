import AccessControl.Json.Reader
import AccessControl.Json.Writer
import Mathlib.Data.Nat.Digits.Defs

/-! # Whole numbers of JSON read back

The decimal digits of a number are read to their end and stand for that number, with no leading zero
but in zero itself. While the number fits 64 bits no digit is dropped, so it stays whole; a minus
makes it negative.
-/
namespace AccessControl.Json
open AccessControl.Text (Symbol)

variable {n m : Nat} {c : Char} {rest : List Symbol} {ds : List Nat}

def EndsNumber (rest : List Symbol) : Prop :=
  ∀ c ∈ rest.head?, digitValue c = none ∧ c ≠ some '.' ∧ c ≠ some 'e' ∧ c ≠ some 'E'

def digitNumber (c : Char) : Nat := c.toNat - 48

def digitsOf (n : Nat) : List Nat := (Nat.toDigits 10 n).map digitNumber

theorem digitValue_of_isDigit (h : c.isDigit = true) :
    digitValue (some c) = some (digitNumber c) := by
  simp only [Char.isDigit, Bool.and_eq_true, decide_eq_true_eq] at h
  exact if_pos h

theorem spanDigits_append {cs : List Char} (hcs : ∀ c ∈ cs, c.isDigit = true)
    (hrest : EndsNumber rest) :
    spanDigits (cs.map some ++ rest) = (cs.map digitNumber, rest) := by
  induction cs with
  | nil =>
    cases rest with
    | nil => rfl
    | cons s rest =>
      have hs := (hrest s rfl).1
      simp only [List.map_nil, List.nil_append, spanDigits, hs]
  | cons c cs ih =>
    have hc := digitValue_of_isDigit (hcs c (List.mem_cons_self ..))
    simp only [List.map_cons, List.cons_append, spanDigits, hc, ih fun d hd =>
      hcs d (List.mem_cons_of_mem _ hd)]

theorem isDigit_of_mem_toDigits (hc : c ∈ Nat.toDigits 10 n) : c.isDigit = true :=
  Nat.isDigit_of_mem_toDigits (by decide) (by decide) hc

theorem spanDigits_toDigits (hrest : EndsNumber rest) :
    spanDigits ((Nat.toDigits 10 n).map some ++ rest) = (digitsOf n, rest) :=
  spanDigits_append (fun _ hc => isDigit_of_mem_toDigits hc) hrest

theorem natOfDigits_digitsOf (n : Nat) : natOfDigits (digitsOf n) = n := by
  have hfold : Nat.ofDigitChars 10 (Nat.toDigits 10 n) 0 = _ := Nat.ofDigitChars_eq_foldl
  rw [Nat.ofDigitChars_ten_toDigits] at hfold
  rw [natOfDigits, digitsOf, List.foldl_map]
  refine Eq.trans ?_ hfold.symm
  congr 1
  funext m c
  rw [Nat.mul_comm m]
  rfl

theorem digitNumber_digitChar (h : n < 10) : digitNumber n.digitChar = n := by
  revert n; decide

theorem digitsOf_of_lt (h : n < 10) : digitsOf n = [n] := by
  rw [digitsOf, Nat.toDigits_of_lt_base h, List.map_singleton, digitNumber_digitChar h]

/-- A number other than zero does not begin with a zero. -/
theorem digitsOf_of_pos (h : 0 < n) : ∃ d ds, digitsOf n = d :: ds ∧ d ≠ 0 := by
  induction n using Nat.strong_induction_on with
  | _ n ih =>
    by_cases hn : n < 10
    · exact ⟨n, [], digitsOf_of_lt hn, Nat.ne_of_gt h⟩
    · obtain ⟨d, ds, hds, hd⟩ := ih (n / 10) (by omega) (by omega)
      refine ⟨d, ds ++ [digitNumber (n % 10).digitChar], ?_, hd⟩
      rw [digitsOf] at hds
      rw [digitsOf, Nat.toDigits_of_base_le (by decide) (by omega), List.map_append, hds]
      rfl

theorem le_foldl_digits (ds : List Nat) (m : Nat) : m ≤ ds.foldl (fun n d => n * 10 + d) m := by
  induction ds generalizing m with
  | nil => exact Nat.le_refl m
  | cons d ds ih => exact Nat.le_trans (by omega) (ih (m * 10 + d))

theorem gatherWhole_eq (h : ds.foldl (fun n d => n * 10 + d) m < wordLimit) :
    gatherWhole m 0 ds = (ds.foldl (fun n d => n * 10 + d) m, 0) := by
  induction ds generalizing m with
  | nil => rfl
  | cons d ds ih =>
    have hd : m * 10 + d < wordLimit := Nat.lt_of_le_of_lt (le_foldl_digits ds _) h
    rw [gatherWhole, if_pos ⟨rfl, hd⟩]
    exact ih h

/-- The digits of a number that fits are read as that number, with its sign. -/
theorem value_of_digits (h : n < wordLimit) (negative : Bool)
    (hsign : negative = true → 0 < n ∧ n ≤ 2 ^ 63) :
    (Numeral.mk negative (digitsOf n) [] true 0).value = .int (if negative then -n else n) := by
  have hgather : gatherWhole 0 0 (digitsOf n) = (n, 0) := by
    have hfold : (digitsOf n).foldl (fun n d => n * 10 + d) 0 = n := natOfDigits_digitsOf n
    rw [gatherWhole_eq (by rwa [hfold]), hfold]
  rw [Numeral.value]
  simp only [hgather, and_self, if_true]
  cases negative with
  | false => rfl
  | true =>
    obtain ⟨hpos, hle⟩ := hsign rfl
    have hlarge : ¬(n = 0 ∨ Nat.pow 2 63 < n) := by
      rintro (rfl | hlt)
      · exact Nat.lt_irrefl 0 hpos
      · exact Nat.not_le.2 hlt hle
    simp only [Bool.not_true, Bool.false_eq_true, if_false, if_neg hlarge, if_true]

theorem readFraction_of_ends (h : EndsNumber rest) : readFraction rest = some (none, rest) := by
  cases rest with
  | nil => rfl
  | cons c rest =>
    have hc := (h c rfl).2.1
    rw [readFraction.eq_def]
    split
    · rename_i he
      exact absurd (List.cons.inj he).1 hc
    · rfl

theorem readExponent_of_ends (h : EndsNumber rest) : readExponent rest = some (none, rest) := by
  cases rest with
  | nil => rfl
  | cons c rest =>
    obtain ⟨_, _, he, hE⟩ := h c rfl
    cases c with
    | none => rfl
    | some c =>
      have hc : ¬(c = 'e' ∨ c = 'E') := by
        rintro (rfl | rfl)
        · exact he rfl
        · exact hE rfl
      simp only [readExponent.eq_def, if_neg hc]

/-- Decimal digits are read up to where the number ends. They have no leading zero, so a zero stands
alone. -/
theorem readNumeral_toDigits (n : Nat) (negative : Bool) (hrest : EndsNumber rest) :
    readNumeral negative ((Nat.toDigits 10 n).map some ++ rest) =
      some (⟨negative, digitsOf n, [], true, 0⟩, rest) := by
  rw [readNumeral, spanDigits_toDigits hrest]
  cases n with
  | zero =>
    simp only [digitsOf_of_lt (show 0 < 10 by decide), readFraction_of_ends hrest,
      Option.bind_eq_bind, Option.bind_some, readExponent_of_ends hrest]
    rfl
  | succ n =>
    obtain ⟨d, ds, hds, hd⟩ := digitsOf_of_pos (Nat.succ_pos n)
    rw [hds]
    split
    · rename_i he
      cases he
    · rename_i he
      cases he
      exact absurd rfl hd
    · rename_i he
      cases he
      simp only [readFraction_of_ends hrest, Option.bind_eq_bind, Option.bind_some,
        readExponent_of_ends hrest]
      rfl

end AccessControl.Json
