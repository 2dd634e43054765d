import AccessControl.Digest.Sha256

/-! # Keyed digests

The digest of a message under a key: the key fills one block of the hash, longer keys are hashed
first and shorter ones are extended with zeros. Keys that fill the block alike are therefore one
key.
-/
namespace AccessControl.Hmac
open AccessControl.Text (Octets)

def keyBlock (key : Octets) : Octets :=
  let short := if key.length ≤ Sha256.blockSize then key else Sha256.hash key
  short ++ List.replicate (Sha256.blockSize - short.length) 0

def digestWithBlock (block message : Octets) : Octets :=
  let inner := Sha256.hash (block.map (· ^^^ 0x36) ++ message)
  Sha256.hash (block.map (· ^^^ 0x5c) ++ inner)

def digest (key message : Octets) : Octets := digestWithBlock (keyBlock key) message

theorem digest_eq_of_keyBlock_eq {a b : Octets} (h : keyBlock a = keyBlock b) (message : Octets) :
    digest a message = digest b message := by
  simp [digest, h]

/-- A zero at the end of a short key changes nothing. -/
theorem keyBlock_append_zero {key : Octets} (h : key.length < Sha256.blockSize) :
    keyBlock (key ++ [0]) = keyBlock key := by
  have h1 : key.length + 1 ≤ Sha256.blockSize := h
  have e : Sha256.blockSize - key.length = Sha256.blockSize - (key.length + 1) + 1 := by omega
  simp [keyBlock, h1, Nat.le_of_lt h, e, List.replicate_succ]

end AccessControl.Hmac
