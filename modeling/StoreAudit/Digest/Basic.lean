import StoreAudit.Digest.Sha256

/-!
# Digests and their text form

A digest is 32 bytes. Its text form is 64 lowercase hexadecimal digits, high nibble first; only that
form is read back, so an accepted object name can hold no separator and no dot.
-/

namespace StoreAudit

/-- The name of a content: 32 bytes. -/
structure Digest where
  bytes : Bytes
  length_bytes : bytes.length = 32
  deriving DecidableEq

namespace Hex

/-- The lowercase digit of a nibble. -/
def digit (nibble : UInt8) : UInt8 := if nibble < 10 then 48 + nibble else 87 + nibble

/-- Whether a byte is a lowercase hexadecimal digit. -/
def isDigit (byte : UInt8) : Bool := (48 ≤ byte && byte ≤ 57) || (97 ≤ byte && byte ≤ 102)

/-- The nibble of a lowercase digit. -/
def value (byte : UInt8) : UInt8 := if byte ≤ 57 then byte - 48 else byte - 87

/-- Two digits for each byte, the high nibble first. -/
def encode (bytes : Bytes) : Bytes :=
  bytes.flatMap fun (byte : UInt8) => [digit (byte >>> 4), digit (byte &&& 15)]

/-- One byte for each two digits. -/
def decode : Bytes → Bytes
  | high :: low :: rest => (value high * 16 + value low) :: decode rest
  | _ => []

@[simp] theorem length_encode (bytes : Bytes) : (encode bytes).length = 2 * bytes.length := by
  induction bytes with
  | nil => rfl
  | cons byte rest ih =>
    simp only [encode, List.flatMap_cons, List.length_append, List.length_cons, List.length_nil]
    rw [← encode, ih]
    omega

private theorem length_decode : ∀ text : Bytes, (decode text).length = text.length / 2
  | [] => rfl
  | [_] => by simp [decode]
  | _ :: _ :: rest => by
    simp only [decode, List.length_cons, length_decode rest]
    omega

end Hex

namespace Digest

/-- Whether a text is the text form of a digest. -/
def isText (text : Bytes) : Bool := text.length == 64 && text.all Hex.isDigit

/-- A text form is 64 lowercase hexadecimal digits. -/
theorem isText_iff {text : Bytes} :
    isText text = true ↔ text.length = 64 ∧ ∀ byte ∈ text, Hex.isDigit byte = true := by
  simp [isText]

/-- The digest with the given text form. -/
def ofText? (text : Bytes) : Option Digest :=
  if valid : isText text = true then
    some ⟨Hex.decode text, by
      rw [Hex.length_decode]
      simp only [isText, Bool.and_eq_true, beq_iff_eq] at valid
      rw [valid.1]⟩
  else none

/-- The text form: 64 lowercase digits. -/
def text (digest : Digest) : Bytes := Hex.encode digest.bytes

@[simp] theorem length_text (digest : Digest) : digest.text.length = 64 := by
  rw [text, Hex.length_encode, digest.length_bytes]

/-- The digest of all zero bytes, which stands for no content. -/
def zero : Digest := ⟨List.replicate 32 0, rfl⟩

/-- Whether every byte is zero. -/
def isZero (digest : Digest) : Bool := digest.bytes.all (· == 0)

/-- The digest that names a content. -/
def ofContent (content : Bytes) : Digest := ⟨Sha256.hash content, Sha256.length_hash content⟩

/-- The object name of a content. -/
def nameOf (content : Bytes) : Bytes := (ofContent content).text

end Digest

/-- What reading a descriptor to its end delivers: pieces in order, and the error that stopped the
reading, if one did. -/
structure Reading (ε : Type) where
  pieces : List Bytes
  failure : Option ε := none

namespace Digest

/-- The digest of everything a descriptor delivers and the number of its bytes; an error gives
neither, however much was read before it. -/
def ofReading {ε : Type} (reading : Reading ε) : Except ε (Digest × Nat) :=
  let state := reading.pieces.foldl Sha256.absorb Sha256.empty
  match reading.failure with
  | some failure => .error failure
  | none => .ok (⟨state.finish.toBytes, rfl⟩, reading.pieces.flatten.length)

end Digest

end StoreAudit
