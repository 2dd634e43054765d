import AccessControl.Tokenizer
import Mathlib.Data.List.TakeDrop
import Mathlib.Data.List.TakeWhile

/-! # The parts of a token

A text is split at its last two dots, so the second and the third part hold none. A text whose first
two parts hold no dot is cut there in one way only, whatever stands behind the second dot.
-/
namespace AccessControl.Tokenizer

variable {s front tail a b c d e f : List Char}

def joined (a b c : List Char) : List Char := a ++ '.' :: b ++ '.' :: c

theorem notDot_of_not_mem (h : '.' ∉ s) : ∀ c ∈ s, (c != '.') = true := by
  intro c hc
  rw [bne_iff_ne]
  rintro rfl
  exact h hc

theorem splitLastDot_of_not_mem (h : '.' ∉ s) : splitLastDot s = none := by
  have hreverse : '.' ∉ s.reverse := mt List.mem_reverse.1 h
  have hdrop : s.reverse.dropWhile (· != '.') = [] :=
    List.dropWhile_eq_nil_iff.2 (notDot_of_not_mem hreverse)
  rw [splitLastDot, List.span_eq_takeWhile_dropWhile, hdrop]

theorem splitLastDot_append (h : '.' ∉ tail) :
    splitLastDot (front ++ '.' :: tail) = some (front, tail) := by
  have hreverse : '.' ∉ tail.reverse := mt List.mem_reverse.1 h
  have hall := notDot_of_not_mem hreverse
  have htext : (front ++ '.' :: tail).reverse = tail.reverse ++ '.' :: front.reverse := by
    rw [List.reverse_append, List.reverse_cons, List.append_assoc]
    rfl
  rw [splitLastDot, List.span_eq_takeWhile_dropWhile, htext, List.takeWhile_append_of_pos hall,
    List.dropWhile_append_of_pos hall]
  show some (front.reverse.reverse, (tail.reverse ++ []).reverse) = some (front, tail)
  rw [List.append_nil, List.reverse_reverse, List.reverse_reverse]

/-- The last dot is the one with no other behind it. -/
theorem splitLastDot_eq_some_iff :
    splitLastDot s = some (front, tail) ↔ s = front ++ '.' :: tail ∧ '.' ∉ tail := by
  constructor
  · intro h
    by_cases hdot : '.' ∈ s.reverse
    · obtain ⟨last, before, hs, hlast⟩ := List.eq_append_cons_of_mem hdot
      have htext : s = before.reverse ++ '.' :: last.reverse := by
        rw [← List.reverse_reverse s, hs, List.reverse_append, List.reverse_cons, List.append_assoc]
        rfl
      have htail : '.' ∉ last.reverse := mt List.mem_reverse.1 hlast
      rw [htext, splitLastDot_append htail] at h
      cases h
      exact ⟨htext, htail⟩
    · rw [splitLastDot_of_not_mem (mt List.mem_reverse.2 hdot)] at h
      cases h
  · rintro ⟨rfl, htail⟩
    exact splitLastDot_append htail

theorem split_eq_some_iff : split s = some (a, b, c) ↔ s = joined a b c ∧ '.' ∉ b ∧ '.' ∉ c := by
  constructor
  · intro h
    simp only [split, Option.bind_eq_bind, Option.bind_eq_some_iff, Prod.exists] at h
    obtain ⟨front, third, hthird, first, second, hsecond, he⟩ := h
    cases he
    obtain ⟨rfl, hc⟩ := splitLastDot_eq_some_iff.1 hthird
    obtain ⟨rfl, hb⟩ := splitLastDot_eq_some_iff.1 hsecond
    exact ⟨rfl, hb, hc⟩
  · rintro ⟨rfl, hb, hc⟩
    rw [split, joined, splitLastDot_append hc]
    simp only [Option.bind_eq_bind, Option.bind_some, splitLastDot_append hb]
    rfl

/-- A text is cut at its first dot in one way. -/
theorem append_dot_inj (ha : '.' ∉ a) (hd : '.' ∉ d) (h : a ++ '.' :: b = d ++ '.' :: e) :
    a = d ∧ b = e := by
  induction a generalizing d with
  | nil =>
    cases d with
    | nil => exact ⟨rfl, (List.cons.inj h).2⟩
    | cons x d => exact absurd ((List.cons.inj h).1 ▸ List.mem_cons_self ..) hd
  | cons x a ih =>
    cases d with
    | nil => exact absurd ((List.cons.inj h).1 ▸ List.mem_cons_self ..) ha
    | cons y d =>
      obtain ⟨rfl, htail⟩ := List.cons.inj h
      have ha' : '.' ∉ a := fun hm => ha (List.mem_cons_of_mem _ hm)
      have hd' : '.' ∉ d := fun hm => hd (List.mem_cons_of_mem _ hm)
      obtain ⟨rfl, rfl⟩ := ih ha' hd' htail
      exact ⟨rfl, rfl⟩

theorem joined_inj (ha : '.' ∉ a) (hb : '.' ∉ b) (hd : '.' ∉ d) (he : '.' ∉ e)
    (h : joined a b c = joined d e f) : a = d ∧ b = e ∧ c = f := by
  simp only [joined, List.append_assoc, List.cons_append] at h
  obtain ⟨rfl, htail⟩ := append_dot_inj ha hd h
  obtain ⟨rfl, rfl⟩ := append_dot_inj hb he htail
  exact ⟨rfl, rfl, rfl⟩

theorem count_dot_joined (a b c : List Char) :
    (joined a b c).count '.' = a.count '.' + b.count '.' + c.count '.' + 2 := by
  simp only [joined, List.count_append, List.count_cons_self]
  omega

theorem count_dot_eq_two_iff : (joined a b c).count '.' = 2 ↔ '.' ∉ a ∧ '.' ∉ b ∧ '.' ∉ c := by
  rw [count_dot_joined, ← List.count_eq_zero, ← List.count_eq_zero, ← List.count_eq_zero]
  omega

theorem joined_append : joined a b c ++ d = joined a b (c ++ d) := List.append_assoc ..

end AccessControl.Tokenizer
