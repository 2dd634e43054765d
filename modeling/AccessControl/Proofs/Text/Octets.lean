import AccessControl.Text.Octets

/-! # Reading what was written in octets

The octets of characters are read as those characters. The first octet of a character tells how many
follow, the others are continuations, and the payload bits of all of them spell the character; no
shorter form would do, and no character is a surrogate.
-/
namespace AccessControl.Text

variable {c : Char} {n least : Nat}

theorem toNat_octet (h : n < 256) : (UInt8.ofNat n).toNat = n := by
  rw [UInt8.toNat_ofNat']
  exact Nat.mod_eq_of_lt h

theorem spell_toNat (hleast : least ≤ c.toNat) (hn : n = c.toNat) : spell least n = some c := by
  have hvalid : n.isValidChar := hn ▸ c.valid
  rw [spell, if_pos ⟨hn ▸ hleast, hvalid⟩, hn, Char.ofNat_toNat]

theorem isContinuation_octet (n : Nat) : isContinuation (UInt8.ofNat (0x80 + n % 64)) = true := by
  simp only [isContinuation, UInt8.le_iff_toNat_le, Bool.and_eq_true, decide_eq_true_eq]
  rw [toNat_octet (by omega)]
  exact ⟨Nat.le_add_right _ _, by simp; omega⟩

/-- Octets are compared as their numbers. -/
theorem octet_lt {k : Nat} (hn : n < 256) (hk : k < 256) :
    UInt8.ofNat n < UInt8.ofNat k ↔ n < k := by
  rw [UInt8.lt_iff_toNat_lt, toNat_octet hn, toNat_octet hk]

theorem not_octet_lt {k : Nat} (hn : n < 256) (hk : k ≤ n) : ¬UInt8.ofNat n < UInt8.ofNat k := by
  rw [octet_lt hn (Nat.lt_of_le_of_lt hk hn)]
  exact Nat.not_lt.2 hk

theorem toNat_lt_of_char (c : Char) : c.toNat < 0x110000 := by
  rcases c.valid with h | h
  · exact Nat.lt_trans h (by decide)
  · exact h.2

/-- The octets of a character begin with that character. -/
theorem firstChar_encodeChar (c : Char) (rest : Octets) :
    firstChar (encodeChar c ++ rest) = some (c, (encodeChar c).length - 1) := by
  have hc := toNat_lt_of_char c
  unfold encodeChar
  simp only
  split
  · have h80 : UInt8.ofNat c.toNat < 0x80 :=
      (octet_lt (k := 0x80) (by omega) (by omega)).2 (by omega)
    simp only [List.singleton_append, firstChar.eq_def, h80, if_true]
    rw [toNat_octet (by omega), Char.ofNat_toNat]
    rfl
  split
  · have hlead : 0xC0 + c.toNat / 64 < 256 := by omega
    have h80 : ¬UInt8.ofNat (0xC0 + c.toNat / 64) < 0x80 :=
      not_octet_lt (k := 0x80) hlead (by omega)
    have hC0 : ¬UInt8.ofNat (0xC0 + c.toNat / 64) < 0xC0 :=
      not_octet_lt (k := 0xC0) hlead (by omega)
    have hE0 : UInt8.ofNat (0xC0 + c.toNat / 64) < 0xE0 :=
      (octet_lt (k := 0xE0) hlead (by omega)).2 (by omega)
    simp only [List.cons_append, firstChar.eq_def, h80, hC0, hE0, isContinuation_octet,
      if_true, if_false]
    rw [toNat_octet hlead, toNat_octet (by omega), spell_toNat (c := c) (by omega) (by omega)]
    rfl
  split
  · have hlead : 0xE0 + c.toNat / 4096 < 256 := by omega
    have h80 : ¬UInt8.ofNat (0xE0 + c.toNat / 4096) < 0x80 :=
      not_octet_lt (k := 0x80) hlead (by omega)
    have hC0 : ¬UInt8.ofNat (0xE0 + c.toNat / 4096) < 0xC0 :=
      not_octet_lt (k := 0xC0) hlead (by omega)
    have hE0 : ¬UInt8.ofNat (0xE0 + c.toNat / 4096) < 0xE0 :=
      not_octet_lt (k := 0xE0) hlead (by omega)
    have hF0 : UInt8.ofNat (0xE0 + c.toNat / 4096) < 0xF0 :=
      (octet_lt (k := 0xF0) hlead (by omega)).2 (by omega)
    simp only [List.cons_append, firstChar.eq_def, h80, hC0, hE0, hF0, isContinuation_octet,
      Bool.and_true, if_true, if_false]
    rw [toNat_octet hlead, toNat_octet (by omega), toNat_octet (by omega),
      spell_toNat (c := c) (by omega) (by omega)]
    rfl
  · have hlead : 0xF0 + c.toNat / 262144 < 256 := by omega
    have h80 : ¬UInt8.ofNat (0xF0 + c.toNat / 262144) < 0x80 :=
      not_octet_lt (k := 0x80) hlead (by omega)
    have hC0 : ¬UInt8.ofNat (0xF0 + c.toNat / 262144) < 0xC0 :=
      not_octet_lt (k := 0xC0) hlead (by omega)
    have hE0 : ¬UInt8.ofNat (0xF0 + c.toNat / 262144) < 0xE0 :=
      not_octet_lt (k := 0xE0) hlead (by omega)
    have hF0 : ¬UInt8.ofNat (0xF0 + c.toNat / 262144) < 0xF0 :=
      not_octet_lt (k := 0xF0) hlead (by omega)
    have hF8 : UInt8.ofNat (0xF0 + c.toNat / 262144) < 0xF8 :=
      (octet_lt (k := 0xF8) hlead (by omega)).2 (by omega)
    simp only [List.cons_append, firstChar.eq_def, h80, hC0, hE0, hF0, hF8, isContinuation_octet,
      Bool.and_true, if_true, if_false]
    rw [toNat_octet hlead, toNat_octet (by omega), toNat_octet (by omega), toNat_octet (by omega),
      spell_toNat (c := c) (by omega) (by omega)]
    rfl

theorem encodeChar_ne_nil (c : Char) : encodeChar c ≠ [] := by
  unfold encodeChar
  simp only
  split
  · exact List.cons_ne_nil _ _
  split
  · exact List.cons_ne_nil _ _
  split
  · exact List.cons_ne_nil _ _
  · exact List.cons_ne_nil _ _

theorem symbolsOf_encodeChar_append (c : Char) (rest : Octets) :
    symbolsOf (encodeChar c ++ rest) = some c :: symbolsOf rest := by
  have hfirst := firstChar_encodeChar c rest
  cases he : encodeChar c with
  | nil => exact absurd he (encodeChar_ne_nil c)
  | cons a tail =>
    rw [he, List.cons_append] at hfirst
    rw [List.cons_append, symbolsOf, hfirst]
    simp only [List.length_cons, Nat.add_sub_cancel, List.drop_left]

theorem symbolsOf_encodeChars (cs : List Char) :
    symbolsOf (cs.flatMap encodeChar) = cs.map some := by
  induction cs with
  | nil => rw [List.flatMap_nil, symbolsOf]; rfl
  | cons c rest ih => rw [List.flatMap_cons, symbolsOf_encodeChar_append, ih, List.map_cons]

theorem octet_cons_lt {k : Nat} {rest rest' : Octets} (hn : n < 256) (hk : k < 256) (hle : n ≤ k)
    (hrest : n = k → rest < rest') : UInt8.ofNat n :: rest < UInt8.ofNat k :: rest' := by
  rw [List.cons_lt_cons_iff]
  rcases Nat.lt_or_eq_of_le hle with hlt | heq
  · exact .inl ((octet_lt hn hk).2 hlt)
  · exact .inr ⟨congrArg UInt8.ofNat heq, hrest heq⟩

theorem octet_cons_lt_of_lt {k : Nat} {rest rest' : Octets} (hk : k < 256) (hlt : n < k) :
    UInt8.ofNat n :: rest < UInt8.ofNat k :: rest' :=
  octet_cons_lt (Nat.lt_trans hlt hk) hk (Nat.le_of_lt hlt) fun heq => absurd heq (Nat.ne_of_lt hlt)

/-- A character with a higher number has higher octets: where it has more of them its first one is
higher, and as many spell its number from the highest digit on. -/
theorem encodeChar_append_lt {d : Char} (h : c.toNat < d.toNat) (rest rest' : Octets) :
    encodeChar c ++ rest < encodeChar d ++ rest' := by
  have hd := toNat_lt_of_char d
  unfold encodeChar
  generalize c.toNat = n at h ⊢
  generalize d.toNat = k at h hd ⊢
  by_cases h1 : n < 0x80
  · simp only [h1, if_true, List.cons_append]
    split
    · exact octet_cons_lt_of_lt (by omega) (by omega)
    split
    · exact octet_cons_lt_of_lt (by omega) (by omega)
    split
    · exact octet_cons_lt_of_lt (by omega) (by omega)
    · exact octet_cons_lt_of_lt (by omega) (by omega)
  have hk1 : ¬k < 0x80 := by omega
  by_cases h2 : n < 0x800
  · simp only [h1, h2, hk1, if_true, if_false, List.cons_append]
    split
    · refine octet_cons_lt (by omega) (by omega) (by omega) fun hlead => ?_
      exact octet_cons_lt_of_lt (by omega) (by omega)
    split
    · exact octet_cons_lt_of_lt (by omega) (by omega)
    · exact octet_cons_lt_of_lt (by omega) (by omega)
  have hk2 : ¬k < 0x800 := by omega
  by_cases h3 : n < 0x10000
  · simp only [h1, h2, h3, hk1, hk2, if_true, if_false, List.cons_append]
    split
    · refine octet_cons_lt (by omega) (by omega) (by omega) fun hlead => ?_
      refine octet_cons_lt (by omega) (by omega) (by omega) fun hnext => ?_
      exact octet_cons_lt_of_lt (by omega) (by omega)
    · exact octet_cons_lt_of_lt (by omega) (by omega)
  have hk3 : ¬k < 0x10000 := by omega
  simp only [h1, h2, h3, hk1, hk2, hk3, if_false, List.cons_append]
  refine octet_cons_lt (by omega) (by omega) (by omega) fun hlead => ?_
  refine octet_cons_lt (by omega) (by omega) (by omega) fun hnext => ?_
  refine octet_cons_lt (by omega) (by omega) (by omega) fun hthird => ?_
  exact octet_cons_lt_of_lt (by omega) (by omega)

theorem flatMap_encodeChar_lt {cs ds : List Char} (h : cs < ds) :
    cs.flatMap encodeChar < ds.flatMap encodeChar := by
  induction h with
  | @nil d ds =>
    have hne : encodeChar d ++ ds.flatMap encodeChar ≠ [] :=
      List.append_ne_nil_of_left_ne_nil (encodeChar_ne_nil d) _
    obtain ⟨b, rest, hcons⟩ := List.exists_cons_of_ne_nil hne
    rw [List.flatMap_cons, List.flatMap_nil, hcons]
    exact List.nil_lt_cons b rest
  | rel hlt =>
    rw [List.flatMap_cons, List.flatMap_cons]
    exact encodeChar_append_lt hlt _ _
  | cons _ ih =>
    rw [List.flatMap_cons, List.flatMap_cons]
    exact List.append_left_lt ih

/-- Texts are ordered as their octets are. -/
theorem octetsOf_lt {a b : String} (h : a < b) : octetsOf a < octetsOf b := flatMap_encodeChar_lt h

end AccessControl.Text
