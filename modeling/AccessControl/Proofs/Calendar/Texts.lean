import AccessControl.Calendar.Text
import AccessControl.Proofs.Calendar.Dates
import AccessControl.Proofs.Json.Numbers

/-! # Instants read back

The text of a moment is read as that moment. Each part is written in digits and ends where a
character stands that is no digit, and each reader takes the digits of its part and leaves what
follows. The readers would take blanks first, but there are none.
-/
namespace AccessControl.Instant
open AccessControl.Text (isSpace isDigit digitsValue)

variable {t : Instant} {c : Char} {n width : Nat} {ds rest : List Char}

structure AreDigits (ds : List Char) : Prop where
  ne_nil : ds ≠ []
  all : ∀ c ∈ ds, isDigit c = true

def EndsDigits (rest : List Char) : Prop := ∀ c ∈ rest.head?, isDigit c = false

theorem endsDigits_cons (h : isDigit c = false) : EndsDigits (c :: rest) := by
  intro d hd
  cases hd
  exact h

theorem toNat_of_isDigit (h : isDigit c = true) : 48 ≤ c.toNat ∧ c.toNat ≤ 57 := by
  simp only [isDigit, Bool.and_eq_true, decide_eq_true_eq] at h
  exact h

theorem isSpace_of_isDigit (h : isDigit c = true) : isSpace c = false := by
  obtain ⟨hleast, hgreatest⟩ := toNat_of_isDigit h
  simp only [isSpace, Bool.or_eq_false_iff, Bool.and_eq_false_iff, beq_eq_false_iff_ne,
    decide_eq_false_iff_not]
  omega

theorem AreDigits.takeWhile_append (hds : AreDigits ds) (hrest : EndsDigits rest) :
    (ds ++ rest).takeWhile isDigit = ds := by
  rw [List.takeWhile_append_of_pos hds.all]
  cases rest with
  | nil => rw [List.takeWhile_nil, List.append_nil]
  | cons c rest =>
    rw [List.takeWhile_cons_of_neg (by rw [hrest c rfl]; exact nofun), List.append_nil]

theorem AreDigits.trimStart_append (hds : AreDigits ds) (rest : List Char) :
    trimStart (ds ++ rest) = ds ++ rest := by
  cases ds with
  | nil => exact absurd rfl hds.ne_nil
  | cons c ds =>
    have hc := isSpace_of_isDigit (hds.all c (List.mem_cons_self ..))
    rw [List.cons_append, trimStart, List.dropWhile_cons_of_neg (by rw [hc]; exact nofun)]

theorem number_append (hds : AreDigits ds) (hwidth : ds.length ≤ width) (hrest : EndsDigits rest) :
    number width (ds ++ rest) = some (digitsValue ds, rest) := by
  have htake : ((ds ++ rest).take width).takeWhile isDigit = ds := by
    rw [← List.take_takeWhile, hds.takeWhile_append hrest, List.take_of_length_le hwidth]
  simp only [number, htake, List.isEmpty_eq_false_iff.2 hds.ne_nil, Bool.false_eq_true, if_false,
    List.drop_left]

theorem foldl_zeros (k m : Nat) :
    (List.replicate k '0').foldl (fun n c => n * 10 + (c.toNat - 48)) m = m * 10 ^ k := by
  induction k generalizing m with
  | zero => rw [List.replicate_zero, List.foldl_nil, Nat.pow_zero, Nat.mul_one]
  | succ k ih =>
    rw [List.replicate_succ, List.foldl_cons, ih, Nat.pow_succ']
    exact Nat.mul_assoc m 10 (10 ^ k)

theorem digitsValue_zeros_append (k : Nat) (ds : List Char) :
    digitsValue (List.replicate k '0' ++ ds) = digitsValue ds := by
  rw [digitsValue, List.foldl_append, foldl_zeros, Nat.zero_mul, digitsValue]

theorem digitsValue_append_zeros (ds : List Char) (k : Nat) :
    digitsValue (ds ++ List.replicate k '0') = digitsValue ds * 10 ^ k := by
  rw [digitsValue, List.foldl_append, foldl_zeros, digitsValue]

theorem digitsValue_toDigits (n : Nat) : digitsValue (Nat.toDigits 10 n) = n := by
  have hvalue := Json.natOfDigits_digitsOf n
  rwa [Json.natOfDigits, Json.digitsOf, List.foldl_map] at hvalue

theorem digitsValue_padded (width n : Nat) : digitsValue (padded width n) = n := by
  rw [padded, digitsValue_zeros_append, digitsValue_toDigits]

theorem areDigits_padded (width n : Nat) : AreDigits (padded width n) := by
  constructor
  · rw [padded]
    exact List.append_ne_nil_of_right_ne_nil _ Nat.toDigits_ne_nil
  · intro c hc
    rcases List.mem_append.1 hc with hc | hc
    · rw [List.eq_of_mem_replicate hc]
      rfl
    · have hdigit := Json.isDigit_of_mem_toDigits hc
      simp only [Char.isDigit, Bool.and_eq_true, decide_eq_true_eq] at hdigit
      simp only [isDigit, Bool.and_eq_true, decide_eq_true_eq]
      exact hdigit

theorem length_padded (hwidth : 0 < width) (h : n < 10 ^ width) :
    (padded width n).length = width := by
  have hlength := (Nat.length_toDigits_le_iff (by decide) hwidth).2 h
  rw [padded, List.length_append, List.length_replicate]
  omega

theorem literal_trimStart (h : isSpace c = false) :
    literal c (trimStart (c :: rest)) = some rest := by
  rw [trimStart, List.dropWhile_cons_of_neg (by rw [h]; exact nofun), literal, if_pos rfl]

theorem AreDigits.ne_cons (hds : AreDigits ds) (h : isDigit c = false) (tail : List Char) :
    ds ++ rest ≠ c :: tail := by
  cases ds with
  | nil => exact absurd rfl hds.ne_nil
  | cons d ds =>
    intro he
    have hd := hds.all d (List.mem_cons_self ..)
    rw [(List.cons.inj he).1, h] at hd
    cases hd

/-- A year without a sign. -/
theorem readYear_digits (hds : AreDigits ds) :
    readYear (ds ++ rest) = (number 4 (ds ++ rest)).map fun (n, r) => ((n : Int), r) := by
  rw [readYear, hds.trimStart_append]
  split
  · rename_i tail he
    exact absurd he (hds.ne_cons rfl tail)
  · rename_i tail he
    exact absurd he (hds.ne_cons rfl tail)
  · rfl

theorem readYear_minus (s : List Char) :
    readYear ('-' :: s) = (number s.length s).map fun (n, r) => (-(n : Int), r) := rfl

theorem readYear_plus (s : List Char) :
    readYear ('+' :: s) = (number s.length s).map fun (n, r) => ((n : Int), r) := rfl

/-- A year is read back from its text, whether it has four digits or is written with a sign. -/
theorem readYear_yearText (y : Int) (hrest : EndsDigits rest) :
    readYear (yearText y ++ rest) = some (y, rest) := by
  have hdigits := areDigits_padded 4 y.natAbs
  have hlong : (padded 4 y.natAbs).length ≤ (padded 4 y.natAbs ++ rest).length := by
    rw [List.length_append]
    exact Nat.le_add_right _ _
  have hsigned := number_append hdigits hlong hrest
  rw [digitsValue_padded] at hsigned
  rw [yearText]
  split
  · rename_i hy
    have hlength := length_padded (n := y.natAbs) (show 0 < 4 by decide) (by omega)
    rw [readYear_digits hdigits, number_append hdigits (Nat.le_of_eq hlength) hrest,
      digitsValue_padded]
    exact congrArg (fun z => some (z, rest)) (show (y.natAbs : Int) = y by omega)
  · split
    · rw [List.cons_append, readYear_minus, hsigned]
      exact congrArg (fun z => some (z, rest)) (show -(y.natAbs : Int) = y by omega)
    · rw [List.cons_append, readYear_plus, hsigned]
      exact congrArg (fun z => some (z, rest)) (show (y.natAbs : Int) = y by omega)

theorem readPart_padded (h : n < 100) (hrest : EndsDigits rest) :
    readPart (padded 2 n ++ rest) = some (n, rest) := by
  have hdigits := areDigits_padded 2 n
  rw [readPart, hdigits.trimStart_append,
    number_append hdigits (Nat.le_of_eq (length_padded (by decide) h)) hrest, digitsValue_padded]

theorem readFraction_point (h : n < 10 ^ width) (hwidth : 0 < width) (hnine : width ≤ 9)
    (hrest : EndsDigits rest) :
    readFraction ('.' :: padded width n ++ rest) = some (n * 10 ^ (9 - width), rest) := by
  have hdigits := areDigits_padded width n
  have hlength := length_padded hwidth h
  have hvalue :
      digitsValue ((padded width n).take 9 ++ List.replicate (9 - (padded width n).length) '0') =
      n * 10 ^ (9 - width) := by
    rw [List.take_of_length_le (by rw [hlength]; exact hnine), digitsValue_append_zeros,
      digitsValue_padded, hlength]
  rw [List.cons_append, readFraction, hdigits.takeWhile_append hrest]
  simp only [List.isEmpty_eq_false_iff.2 hdigits.ne_nil, Bool.false_eq_true, if_false, hvalue,
    List.drop_left]

/-- The fraction of a second is read back, in whichever of its lengths it was written. -/
theorem readFraction_fractionText (h : n < nanosPerSecond) :
    readFraction (fractionText n ++ 'Z' :: rest) = some (n, 'Z' :: rest) := by
  have hrest : EndsDigits ('Z' :: rest) := endsDigits_cons rfl
  rw [nanosPerSecond] at h
  rw [fractionText]
  split
  · rename_i hn
    rw [hn]
    rfl
  split
  · rename_i hmillis
    rw [readFraction_point (by omega) (by decide) (by decide) hrest]
    exact congrArg (fun m => some (m, 'Z' :: rest)) (show n / 1000000 * 1000000 = n by omega)
  split
  · rename_i hmicros
    rw [readFraction_point (by omega) (by decide) (by decide) hrest]
    exact congrArg (fun m => some (m, 'Z' :: rest)) (show n / 1000 * 1000 = n by omega)
  · rw [readFraction_point (by omega) (by decide) (by decide) hrest]
    exact congrArg (fun m => some (m, 'Z' :: rest)) (Nat.mul_one n)

theorem endsDigits_fractionText : EndsDigits (fractionText n ++ 'Z' :: rest) := by
  rw [fractionText]
  split
  · exact endsDigits_cons rfl
  split
  · exact endsDigits_cons rfl
  split
  · exact endsDigits_cons rfl
  · exact endsDigits_cons rfl

theorem timeOfDay_clock {second : Nat} (h : second < 86400) (nanos : Nat) :
    timeOfDay (second / 3600) (second / 60 % 60) (second % 60) nanos = some (second, nanos) := by
  have hextra : second % 60 / 60 = 0 := by omega
  have hbounds : ¬(23 < second / 3600 ∨ 59 < second / 60 % 60 ∨ 60 < second % 60) := by omega
  simp only [timeOfDay, if_neg hbounds, hextra, Nat.sub_zero, Nat.zero_mul, Nat.add_zero,
    Option.some.injEq, Prod.mk.injEq, and_true]
  omega

theorem IsRegular.isValid_date (h : t.IsRegular) : t.date.isValid = true := by
  obtain ⟨hleast, hgreatest⟩ := inCalendar_iff.1 h.seconds
  simp only [leastSeconds, greatestSeconds] at hleast hgreatest
  apply Date.isValid_ofDays
  · simp only [secondsPerDay]
    omega
  · simp only [secondsPerDay]
    omega

theorem secondOfDay_lt (t : Instant) : t.secondOfDay < 86400 := by
  simp only [secondOfDay, secondsPerDay]
  omega

theorem toDays_date_add (t : Instant) :
    t.date.toDays * secondsPerDay + t.secondOfDay = t.seconds := by
  rw [date, Date.toDays_ofDays]
  simp only [secondOfDay, secondsPerDay]
  omega

/-- A moment is read back from its text. Each reader takes its part and hands on the rest: the date,
the time of day behind the `T`, and no distance from universal time. -/
theorem IsRegular.readChars_chars (h : t.IsRegular) : readChars t.chars = some t := by
  have hvalid := h.isValid_date
  have hday := toDays_date_add t
  have hsecond := secondOfDay_lt t
  have hextra : t.nanos / nanosPerSecond = 0 := Nat.div_eq_of_lt h.nanos
  have hnanos : t.nanos % nanosPerSecond = t.nanos := Nat.mod_eq_of_lt h.nanos
  obtain ⟨hmonth, hdays⟩ := Date.parts_of_isValid hvalid
  simp only [chars, dateText, clockText, hextra, hnanos, Nat.add_zero, List.append_assoc,
    List.cons_append]
  refine Option.bind_eq_some_iff.2 ⟨_, readYear_yearText _ (endsDigits_cons rfl), ?_⟩
  refine Option.bind_eq_some_iff.2 ⟨_, literal_trimStart rfl, ?_⟩
  refine Option.bind_eq_some_iff.2 ⟨_, readPart_padded (by omega) (endsDigits_cons rfl), ?_⟩
  refine Option.bind_eq_some_iff.2 ⟨_, literal_trimStart rfl, ?_⟩
  refine Option.bind_eq_some_iff.2 ⟨_, readPart_padded (by omega) (endsDigits_cons rfl), ?_⟩
  dsimp only
  rw [if_pos (.inl rfl)]
  refine Option.bind_eq_some_iff.2 ⟨_, rfl, ?_⟩
  refine Option.bind_eq_some_iff.2 ⟨_, readPart_padded (by omega) (endsDigits_cons rfl), ?_⟩
  refine Option.bind_eq_some_iff.2 ⟨_, literal_trimStart rfl, ?_⟩
  refine Option.bind_eq_some_iff.2 ⟨_, readPart_padded (by omega) (endsDigits_cons rfl), ?_⟩
  refine Option.bind_eq_some_iff.2 ⟨_, literal_trimStart rfl, ?_⟩
  refine Option.bind_eq_some_iff.2 ⟨_, readPart_padded (by omega) endsDigits_fractionText, ?_⟩
  refine Option.bind_eq_some_iff.2 ⟨_, readFraction_fractionText h.nanos, ?_⟩
  refine Option.bind_eq_some_iff.2
    ⟨_, show readOffset (trimStart ['Z']) = some (0, []) from rfl, ?_⟩
  have hoffset :
      ¬((!(trimStart []).isEmpty) = true ∨ (0 : Int) ≤ -secondsPerDay ∨ secondsPerDay ≤ 0) := by
    decide
  dsimp only
  rw [if_neg hoffset]
  refine Option.bind_eq_some_iff.2 ⟨_, timeOfDay_clock hsecond t.nanos, ?_⟩
  dsimp only
  rw [Int.sub_zero, hday, h.seconds]
  exact if_pos (by rw [hvalid]; rfl)

theorem IsRegular.read_text (h : t.IsRegular) : read t.text = some t := by
  rw [read, text, String.toList_ofList, h.readChars_chars]

end AccessControl.Instant
