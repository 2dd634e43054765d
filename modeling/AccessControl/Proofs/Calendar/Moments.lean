import AccessControl.Calendar.Instant

/-! # Moments and their order

Which moments a clock shows, which come before which, and what it means that one is so much later
than another. Away from inserted seconds time is a count of nanoseconds, and a later moment is a
greater count.
-/
namespace AccessControl.Instant

variable {a b c t e : Instant} {n : Nat}

theorem inCalendar_iff {z : Int} :
    inCalendar z = true ↔ leastSeconds ≤ z ∧ z ≤ greatestSeconds := by
  simp [inCalendar]

structure IsWhole (t : Instant) : Prop where
  nanos : t.nanos = 0
  seconds : inCalendar t.seconds = true

/-- A moment of the calendar that is not in a second the calendar has inserted. -/
structure IsRegular (t : Instant) : Prop where
  seconds : inCalendar t.seconds = true
  nanos : t.nanos < nanosPerSecond

structure OnCalendar (t : Instant) : Prop where
  seconds : inCalendar t.seconds = true
  nanos : t.nanos < 2 * nanosPerSecond

theorem IsRegular.onCalendar (h : t.IsRegular) : t.OnCalendar := by
  refine ⟨h.seconds, ?_⟩
  have hnanos := h.nanos
  omega

theorem IsWhole.onCalendar (h : t.IsWhole) : t.OnCalendar := by
  refine ⟨h.seconds, ?_⟩
  rw [h.nanos]
  decide

theorem IsRegular.truncate_eq (h : t.IsRegular) : t.truncate = ⟨t.seconds, 0⟩ := by
  rw [truncate, Nat.mod_eq_of_lt h.nanos, Nat.sub_self]

theorem IsRegular.isWhole_truncate (h : t.IsRegular) : t.truncate.IsWhole := by
  rw [h.truncate_eq]
  exact ⟨rfl, h.seconds⟩

theorem latest_isRegular : latest.IsRegular := ⟨by decide, by decide⟩

def IsBefore (a b : Instant) : Prop :=
  a.seconds < b.seconds ∨ a.seconds = b.seconds ∧ a.nanos < b.nanos

instance (a b : Instant) : Decidable (a.IsBefore b) :=
  inferInstanceAs (Decidable (a.seconds < b.seconds ∨ a.seconds = b.seconds ∧ a.nanos < b.nanos))

theorem le_eq_false_iff : b.le a = false ↔ a.IsBefore b := by
  simp only [le, IsBefore, Bool.or_eq_false_iff, Bool.and_eq_false_iff, decide_eq_false_iff_not,
    beq_eq_false_iff_ne]
  omega

theorem not_isBefore_self (a : Instant) : ¬a.IsBefore a := by
  simp [IsBefore]

theorem not_isBefore_trans (hab : ¬a.IsBefore b) (hbc : ¬b.IsBefore c) : ¬a.IsBefore c := by
  simp only [IsBefore] at hab hbc ⊢
  omega

theorem exists_isBefore (a b : Instant) : ∃ now : Instant, now.IsBefore a ∧ now.IsBefore b := by
  have ha := Int.min_le_left a.seconds b.seconds
  have hb := Int.min_le_right a.seconds b.seconds
  refine ⟨⟨min a.seconds b.seconds - 1, 0⟩, .inl ?_, .inl ?_⟩
  · show min a.seconds b.seconds - 1 < a.seconds
    omega
  · show min a.seconds b.seconds - 1 < b.seconds
    omega

/-- The nanoseconds since 1970 began, inserted seconds apart. -/
def elapsed (t : Instant) : Int := t.seconds * nanosPerSecond + t.nanos

theorem isInserted_iff : t.isInserted = true ↔ nanosPerSecond ≤ t.nanos := decide_eq_true_iff

theorem staysInserted_iff :
    t.staysInserted n = true ↔ t.isInserted = true ∧ t.nanos + n < 2 * nanosPerSecond := by
  simp [staysInserted]

/-- A later moment is still in the same inserted second, or it is found by counting from a whole
second. -/
theorem add?_eq_some_iff :
    t.add? n = some e ↔ t.staysInserted n = true ∧ e = ⟨t.seconds, t.nanos + n⟩ ∨
    t.staysInserted n = false ∧
      inCalendar (t.seconds + (t.passed n / nanosPerSecond : Nat)) = true ∧
      e = ⟨t.seconds + (t.passed n / nanosPerSecond : Nat), t.passed n % nanosPerSecond⟩ := by
  cases hstays : t.staysInserted n with
  | true => simp [add?, hstays, eq_comm (a := e)]
  | false => simp [add?, hstays, eq_comm (a := e)]

theorem OnCalendar.add? (h : t.OnCalendar) (he : t.add? n = some e) : e.OnCalendar := by
  rcases add?_eq_some_iff.1 he with ⟨hstays, rfl⟩ | ⟨-, hcalendar, rfl⟩
  · exact ⟨h.seconds, (staysInserted_iff.1 hstays).2⟩
  · have hmod : t.passed n % nanosPerSecond < nanosPerSecond := Nat.mod_lt _ (by decide)
    exact IsRegular.onCalendar ⟨hcalendar, hmod⟩

/-- When whole seconds are added, exactly as many whole seconds pass, also from within an inserted
second, of which less than a second is left. -/
theorem OnCalendar.passed_div (h : t.OnCalendar)
    (hleaves : t.staysInserted (n * nanosPerSecond) = false) :
    t.passed (n * nanosPerSecond) / nanosPerSecond = n := by
  have hnanos := h.nanos
  cases hinserted : t.isInserted with
  | true =>
    have hlong : ¬t.nanos + n * nanosPerSecond < 2 * nanosPerSecond := by
      intro hshort
      rw [staysInserted_iff.2 ⟨hinserted, hshort⟩] at hleaves
      cases hleaves
    rw [isInserted_iff] at hinserted
    simp only [passed, isInserted_iff.2 hinserted, if_true]
    simp only [nanosPerSecond] at hinserted hnanos hlong ⊢
    omega
  | false =>
    have hbelow : ¬nanosPerSecond ≤ t.nanos := by
      rw [← isInserted_iff, hinserted]
      exact nofun
    simp only [passed, hinserted, Bool.false_eq_true, if_false]
    simp only [nanosPerSecond] at hbelow ⊢
    omega

/-- A lifetime of whole seconds is the difference between the seconds, also from within an inserted
second, since less than a second is left of it. -/
theorem OnCalendar.seconds_add? (h : t.OnCalendar) (he : t.add? (n * nanosPerSecond) = some e) :
    e.seconds = t.seconds + n := by
  rcases add?_eq_some_iff.1 he with ⟨hstays, rfl⟩ | ⟨hleaves, -, rfl⟩
  · obtain ⟨hinserted, hshort⟩ := staysInserted_iff.1 hstays
    rw [isInserted_iff] at hinserted
    have hzero : n = 0 := by
      simp only [nanosPerSecond] at hinserted hshort
      omega
    simp [hzero]
  · show t.seconds + (t.passed (n * nanosPerSecond) / nanosPerSecond : Nat) = t.seconds + n
    rw [h.passed_div hleaves]

theorem IsRegular.add?_eq (h : t.IsRegular) (n : Nat) : t.add? n =
    if inCalendar (t.seconds + ((t.nanos + n) / nanosPerSecond : Nat)) then
      some ⟨t.seconds + ((t.nanos + n) / nanosPerSecond : Nat), (t.nanos + n) % nanosPerSecond⟩
    else none := by
  have hinserted : t.isInserted = false := decide_eq_false (Nat.not_le.2 h.nanos)
  simp [Instant.add?, staysInserted, passed, hinserted]

theorem eq_of_elapsed_eq (ha : a.nanos < nanosPerSecond) (hb : b.nanos < nanosPerSecond)
    (h : a.elapsed = b.elapsed) : a = b := by
  obtain ⟨_, _⟩ := a
  obtain ⟨_, _⟩ := b
  simp only [elapsed, nanosPerSecond] at ha hb h
  simp only [mk.injEq]
  omega

theorem elapsed_sum (t : Instant) (n : Nat) :
    elapsed ⟨t.seconds + ((t.nanos + n) / nanosPerSecond : Nat), (t.nanos + n) % nanosPerSecond⟩ =
      t.elapsed + n := by
  simp only [elapsed, nanosPerSecond]
  omega

theorem IsRegular.add?_eq_some_iff (h : t.IsRegular) :
    t.add? n = some e ↔ e.IsRegular ∧ e.elapsed = t.elapsed + n := by
  have hmod : (t.nanos + n) % nanosPerSecond < nanosPerSecond := Nat.mod_lt _ (by decide)
  rw [h.add?_eq, Option.ite_none_right_eq_some]
  constructor
  · rintro ⟨hcalendar, he⟩
    cases he
    exact ⟨⟨hcalendar, hmod⟩, elapsed_sum t n⟩
  · rintro ⟨hregular, helapsed⟩
    have he := eq_of_elapsed_eq hmod hregular.nanos ((elapsed_sum t n).trans helapsed.symm)
    have hseconds := hregular.seconds
    rw [← he] at hseconds
    exact ⟨hseconds, congrArg some he⟩

theorem IsRegular.add?_eq_none_iff (h : t.IsRegular) :
    t.add? n = none ↔ latest.elapsed < t.elapsed + n := by
  have hleast := (inCalendar_iff.1 h.seconds).1
  rw [h.add?_eq, ite_eq_right_iff]
  simp only [reduceCtorEq, imp_false, inCalendar_iff, elapsed, latest, nanosPerSecond,
    greatestSeconds, leastSeconds] at hleast ⊢
  omega

end AccessControl.Instant
