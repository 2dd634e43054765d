import AccessControl.Json.Reader
import AccessControl.Json.Writer

/-! # Strings of JSON read back

Each character of a string is read from its written form as itself, whether it was written plainly,
with one of the short escapes, or by the number of its code unit. What follows the closing quote is
left alone.
-/
namespace AccessControl.Json
open AccessControl.Text (Symbol)

variable {c : Char} {n : Nat} {rest : List Symbol}

theorem hexValue_hexDigit (h : n < 16) : hexValue (hexDigit n) = some n := by
  revert n; decide

theorem pieceOfUnit_control (h : c.toNat < 32) :
    pieceOfUnit (0 * 4096 + 0 * 256 + c.toNat / 16 * 16 + c.toNat % 16) = .char c := by
  have hn : 0 * 4096 + 0 * 256 + c.toNat / 16 * 16 + c.toNat % 16 = c.toNat := by omega
  rw [hn, pieceOfUnit, if_neg (by omega), if_neg (by omega), Char.ofNat_toNat]

def addPiece (p : Piece) : Option (List Piece × List Symbol) → Option (List Piece × List Symbol) :=
  Option.map fun (ps, r) => (p :: ps, r)

theorem readPieces_short {e : Char} (he : simpleEscape e = some c) :
    readPieces (some '\\' :: some e :: rest) = addPiece (.char c) (readPieces rest) := by
  have hu : e ≠ 'u' := by
    rintro rfl
    cases he
  rw [readPieces.eq_def]
  simp only [Char.reduceEq, if_false, if_true]
  split
  · rename_i h
    simp only [List.cons.injEq, Option.some.injEq] at h
    exact absurd h.1 hu
  · rename_i h
    simp only [List.cons.injEq, Option.some.injEq] at h
    obtain ⟨rfl, rfl⟩ := h
    rw [he]
    cases readPieces rest <;> rfl
  · rename_i h
    exact absurd rfl (h e rest)

theorem readPieces_long (hc : c.toNat < 32) :
    readPieces (some '\\' :: some 'u' :: some '0' :: some '0' :: some (hexDigit (c.toNat / 16)) ::
      some (hexDigit (c.toNat % 16)) :: rest) = addPiece (.char c) (readPieces rest) := by
  have hzero : hexValue '0' = some 0 := rfl
  rw [readPieces.eq_def]
  simp only [Char.reduceEq, if_false, if_true, hzero,
    hexValue_hexDigit (show c.toNat / 16 < 16 by omega),
    hexValue_hexDigit (show c.toNat % 16 < 16 by omega), Option.bind_eq_bind, Option.bind_some,
    pieceOfUnit_control hc]
  cases readPieces rest <;> rfl

theorem readPieces_plain (hquote : c ≠ '"') (hslash : c ≠ '\\') (hc : ¬c.toNat < 32) :
    readPieces (some c :: rest) = addPiece (.char c) (readPieces rest) := by
  rw [readPieces.eq_def]
  simp only [hquote, hslash, hc, if_false]
  rfl

/-- What is written for a character, itself or as an escape, is read as that character. -/
theorem readPieces_escape (c : Char) (rest : List Symbol) :
    readPieces ((escape c).map some ++ rest) = addPiece (.char c) (readPieces rest) := by
  unfold escape
  split
  · rename_i h
    subst h
    exact readPieces_short rfl
  split
  · rename_i h
    subst h
    exact readPieces_short rfl
  split
  · rename_i h
    subst h
    exact readPieces_short rfl
  split
  · rename_i h
    subst h
    exact readPieces_short rfl
  split
  · rename_i h
    subst h
    exact readPieces_short rfl
  split
  · rename_i h
    subst h
    exact readPieces_short rfl
  split
  · rename_i h
    subst h
    exact readPieces_short rfl
  split
  · rename_i hc
    exact readPieces_long hc
  · rename_i hquote hslash _ _ _ _ _ hc
    exact readPieces_plain hquote hslash hc

theorem readPieces_escapes (cs : List Char) (rest : List Symbol) :
    readPieces ((cs.flatMap escape).map some ++ some '"' :: rest) = some (cs.map .char, rest) := by
  induction cs with
  | nil =>
    rw [List.flatMap_nil, List.map_nil, List.nil_append, readPieces.eq_def]
    rfl
  | cons c cs ih =>
    rw [List.flatMap_cons, List.map_append, List.append_assoc, readPieces_escape, ih]; rfl

theorem joinPieces_chars (cs : List Char) : joinPieces (cs.map .char) = .ok cs := by
  induction cs with
  | nil => rfl
  | cons c cs ih => rw [List.map_cons, joinPieces, ih]; rfl

/-- A string is written behind its opening quote. -/
theorem map_writeString (s : String) :
    (writeString s).map some = some '"' :: ((s.toList.flatMap escape).map some ++ [some '"']) := by
  rw [writeString, List.cons_append, List.map_cons, List.map_append]
  rfl

theorem readString_escapes (s : String) (rest : List Symbol) :
    readString ((s.toList.flatMap escape).map some ++ some '"' :: rest) = some (.ok s, rest) := by
  rw [readString, readPieces_escapes, Option.map_some]
  simp only [joinPieces_chars, Except.map, String.ofList_toList]

end AccessControl.Json
