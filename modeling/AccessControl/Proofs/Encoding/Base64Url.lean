import AccessControl.Encoding.Base64Url

/-! # One written form for octets

Reading accepts exactly what writing produces: four digits hold what three octets hold, and the two
shorter groups at the end are told apart by their length and their spare bits. So a run of octets
has one written form, and that form has no character outside the alphabet.
-/
namespace AccessControl.Base64Url
open AccessControl.Text (Octets)

variable {c p q r s : Char} {n w x y z : Nat} {bs : Octets} {cs : List Char}

theorem value_lt (h : value c = some n) : n < 64 := by
  simp only [value] at h
  split at h
  · simp only [Option.some.injEq] at h; omega
  split at h
  · simp only [Option.some.injEq] at h; omega
  split at h
  · simp only [Option.some.injEq] at h; omega
  split at h
  · simp only [Option.some.injEq] at h; omega
  split at h
  · simp only [Option.some.injEq] at h; omega
  · cases h

/-- A character of the alphabet is the digit of its own value. -/
theorem digit_of_value (h : value c = some n) : digit n = c := by
  have hback : ∀ {m : Nat}, m = c.toNat → Char.ofNat m = c := by
    rintro m rfl
    exact Char.ofNat_toNat c
  simp only [value] at h
  split at h
  · simp only [Option.some.injEq] at h
    rw [digit, if_pos (by omega)]
    exact hback (by omega)
  split at h
  · simp only [Option.some.injEq] at h
    rw [digit, if_neg (by omega), if_pos (by omega)]
    exact hback (by omega)
  split at h
  · simp only [Option.some.injEq] at h
    rw [digit, if_neg (by omega), if_neg (by omega), if_pos (by omega)]
    exact hback (by omega)
  split at h
  · rename_i hc
    cases h
    exact hc.symm
  split at h
  · rename_i hc
    cases h
    exact hc.symm
  · cases h

theorem value_eq_some_iff : value c = some n ↔ n < 64 ∧ c = digit n :=
  ⟨fun h => ⟨value_lt h, (digit_of_value h).symm⟩, fun ⟨h, hc⟩ => hc ▸ value_digit h⟩

theorem octet_eq {a : UInt8} (h : n = a.toNat) : UInt8.ofNat n = a := by rw [h, UInt8.ofNat_toNat]

/-- Whatever is encoded is decoded again, for each of the three lengths that the last group can
have. -/
theorem decode_encode (bs : Octets) : decode (encode bs) = some bs := by
  fun_induction encode bs with
  | case1 a b c rest ih =>
    have ha := a.toNat_lt
    have hb := b.toNat_lt
    have hc := c.toNat_lt
    simp only [decode, value_digit (show a.toNat / 4 < 64 by omega),
      value_digit (show a.toNat % 4 * 16 + b.toNat / 16 < 64 by omega),
      value_digit (show b.toNat % 16 * 4 + c.toNat / 64 < 64 by omega),
      value_digit (show c.toNat % 64 < 64 by omega), ih, Option.bind_eq_bind, Option.bind_some]
    rw [octet_eq (a := a) (by omega), octet_eq (a := b) (by omega), octet_eq (a := c) (by omega)]
    rfl
  | case2 a b =>
    have ha := a.toNat_lt
    have hb := b.toNat_lt
    simp only [decode, value_digit (show a.toNat / 4 < 64 by omega),
      value_digit (show a.toNat % 4 * 16 + b.toNat / 16 < 64 by omega),
      value_digit (show b.toNat % 16 * 4 < 64 by omega), Option.bind_eq_bind, Option.bind_some]
    rw [if_pos (by omega), octet_eq (a := a) (by omega), octet_eq (a := b) (by omega)]
    rfl
  | case3 a =>
    have ha := a.toNat_lt
    simp only [decode, value_digit (show a.toNat / 4 < 64 by omega),
      value_digit (show a.toNat % 4 * 16 < 64 by omega), Option.bind_eq_bind, Option.bind_some]
    rw [if_pos (by omega), octet_eq (a := a) (by omega)]
    rfl
  | case4 => rfl

theorem first_digit (hw : w < 64) (hx : x < 64) : (UInt8.ofNat (w * 4 + x / 16)).toNat / 4 = w := by
  rw [UInt8.toNat_ofNat']
  omega

theorem second_digit (hx : x < 64) (hy : y < 64) :
    (UInt8.ofNat (w * 4 + x / 16)).toNat % 4 * 16 +
      (UInt8.ofNat (x % 16 * 16 + y / 4)).toNat / 16 = x := by
  rw [UInt8.toNat_ofNat', UInt8.toNat_ofNat']
  omega

theorem third_digit (hy : y < 64) (hz : z < 64) :
    (UInt8.ofNat (x % 16 * 16 + y / 4)).toNat % 16 * 4 +
      (UInt8.ofNat (y % 4 * 64 + z)).toNat / 64 = y := by
  rw [UInt8.toNat_ofNat', UInt8.toNat_ofNat']
  omega

theorem fourth_digit (hz : z < 64) : (UInt8.ofNat (y % 4 * 64 + z)).toNat % 64 = z := by
  rw [UInt8.toNat_ofNat']
  omega

/-- Before spare bits that are zero stands the whole digit. -/
theorem second_digit_last (hx : x < 64) (hspare : x % 16 = 0) :
    (UInt8.ofNat (w * 4 + x / 16)).toNat % 4 * 16 = x := by
  rw [UInt8.toNat_ofNat']
  omega

theorem third_digit_last (hy : y < 64) (hspare : y % 4 = 0) :
    (UInt8.ofNat (x % 16 * 16 + y / 4)).toNat % 16 * 4 = y := by
  rw [UInt8.toNat_ofNat']
  omega

/-- No text is read as what another one is written for. -/
theorem eq_encode_of_decode (h : decode cs = some bs) : cs = encode bs := by
  fun_induction decode cs generalizing bs with
  | case1 p q r s rest ih =>
    simp only [Option.bind_eq_bind, Option.bind_eq_some_iff] at h
    obtain ⟨w, hw, x, hx, y, hy, z, hz, tail, htail, h⟩ := h
    obtain ⟨w_lt, rfl⟩ := value_eq_some_iff.1 hw
    obtain ⟨x_lt, rfl⟩ := value_eq_some_iff.1 hx
    obtain ⟨y_lt, rfl⟩ := value_eq_some_iff.1 hy
    obtain ⟨z_lt, rfl⟩ := value_eq_some_iff.1 hz
    cases h
    rw [encode, first_digit w_lt x_lt, second_digit x_lt y_lt, third_digit y_lt z_lt,
      fourth_digit z_lt, ← ih htail]
  | case2 p q r =>
    simp only [Option.bind_eq_bind, Option.bind_eq_some_iff] at h
    obtain ⟨w, hw, x, hx, y, hy, h⟩ := h
    obtain ⟨w_lt, rfl⟩ := value_eq_some_iff.1 hw
    obtain ⟨x_lt, rfl⟩ := value_eq_some_iff.1 hx
    obtain ⟨y_lt, rfl⟩ := value_eq_some_iff.1 hy
    split at h
    · rename_i hspare
      cases h
      rw [encode, first_digit w_lt x_lt, second_digit x_lt y_lt, third_digit_last y_lt hspare]
    · cases h
  | case3 p q =>
    simp only [Option.bind_eq_bind, Option.bind_eq_some_iff] at h
    obtain ⟨w, hw, x, hx, h⟩ := h
    obtain ⟨w_lt, rfl⟩ := value_eq_some_iff.1 hw
    obtain ⟨x_lt, rfl⟩ := value_eq_some_iff.1 hx
    split at h
    · rename_i hspare
      cases h
      rw [encode, first_digit w_lt x_lt, second_digit_last x_lt hspare]
    · cases h
  | case4 p => cases h
  | case5 =>
    cases h
    rfl

theorem encode_eq_nil_iff : encode bs = [] ↔ bs = [] := by
  constructor
  · intro h
    have hdecode := decode_encode bs
    rw [h] at hdecode
    exact (Option.some.inj hdecode).symm
  · rintro rfl
    rfl

/-- Encoded text is of the alphabet throughout, so no dot stands in it. -/
theorem isSome_value_of_mem_encode (h : c ∈ encode bs) : (value c).isSome = true := by
  have hdigit : ∀ {n : Nat}, n < 64 → (value (digit n)).isSome = true :=
    fun hn => by rw [value_digit hn]; rfl
  fun_induction encode bs with
  | case1 a b d rest ih =>
    have ha := a.toNat_lt
    have hb := b.toNat_lt
    have hd := d.toNat_lt
    simp only [List.mem_cons] at h
    rcases h with rfl | rfl | rfl | rfl | h
    · exact hdigit (by omega)
    · exact hdigit (by omega)
    · exact hdigit (by omega)
    · exact hdigit (by omega)
    · exact ih h
  | case2 a b =>
    have ha := a.toNat_lt
    have hb := b.toNat_lt
    simp only [List.mem_cons, List.not_mem_nil, or_false] at h
    rcases h with rfl | rfl | rfl
    · exact hdigit (by omega)
    · exact hdigit (by omega)
    · exact hdigit (by omega)
  | case3 a =>
    have ha := a.toNat_lt
    simp only [List.mem_cons, List.not_mem_nil, or_false] at h
    rcases h with rfl | rfl
    · exact hdigit (by omega)
    · exact hdigit (by omega)
  | case4 => cases h

theorem dot_not_mem_encode (bs : Octets) : '.' ∉ encode bs := by
  intro h
  have hvalue := isSome_value_of_mem_encode h
  revert hvalue
  decide

theorem dot_not_mem_of_decode (h : decode cs = some bs) : '.' ∉ cs :=
  eq_encode_of_decode h ▸ dot_not_mem_encode bs

end AccessControl.Base64Url
