import StoreAudit.Digest.Parse

/-!
# The text form of digests

Two hexadecimal digits hold a byte, one for each nibble, and no other digits hold the same one. So
digests and their text forms correspond one to one, and what is no text form is refused
(`Digest.text_bijective`): to compare a text form with the name of an object is to compare digests.
-/

namespace StoreAudit

namespace Hex

private theorem isDigit_iff_mem {byte : UInt8} :
    isDigit byte = true ↔ byte ∈ ascii "0123456789abcdef" := by
  have all : ∀ number < 256, isDigit (UInt8.ofNat number) = true ↔
      UInt8.ofNat number ∈ ascii "0123456789abcdef" := by decide +kernel
  have this := all byte.toNat byte.toNat_lt
  rwa [UInt8.ofNat_toNat] at this

private theorem toNat_high (byte : UInt8) : (byte >>> 4).toNat = byte.toNat / 16 := by
  rw [UInt8.toNat_shiftRight]
  exact Nat.shiftRight_eq_div_pow byte.toNat 4

private theorem toNat_low (byte : UInt8) : (byte &&& 15).toNat = byte.toNat % 16 := by
  rw [UInt8.toNat_and]
  exact Nat.and_two_pow_sub_one_eq_mod byte.toNat 4

private theorem high_small (byte : UInt8) : (byte >>> 4).toNat < 16 := by
  have fits := byte.toNat_lt
  rw [toNat_high]
  omega

private theorem low_small (byte : UInt8) : (byte &&& 15).toNat < 16 := by
  rw [toNat_low]
  omega

/-- The nibbles of a byte make it up. -/
theorem high_low (byte : UInt8) : byte >>> 4 * 16 + (byte &&& 15) = byte := by
  have fits := byte.toNat_lt
  apply UInt8.toNat_inj.mp
  rw [UInt8.toNat_add, UInt8.toNat_mul, toNat_high, toNat_low]
  change (byte.toNat / 16 * 16 % 2 ^ 8 + byte.toNat % 16) % 2 ^ 8 = byte.toNat
  omega

/-- Two nibbles are those of the byte that they make up. -/
theorem nibbles_eq {high low : UInt8} (highSmall : high.toNat < 16) (lowSmall : low.toNat < 16) :
    (high * 16 + low) >>> 4 = high ∧ (high * 16 + low) &&& 15 = low := by
  have whole : (high * 16 + low).toNat = high.toNat * 16 + low.toNat := by
    rw [UInt8.toNat_add, UInt8.toNat_mul]
    change (high.toNat * 16 % 2 ^ 8 + low.toNat) % 2 ^ 8 = _
    omega
  constructor
  · apply UInt8.toNat_inj.mp
    rw [toNat_high, whole]
    omega
  · apply UInt8.toNat_inj.mp
    rw [toNat_low, whole]
    omega

/-- The digit of a nibble is one, and stands for that nibble. -/
theorem digit_of_small {nibble : UInt8} (small : nibble.toNat < 16) :
    isDigit (digit nibble) = true ∧ value (digit nibble) = nibble := by
  have all : ∀ number < 16, isDigit (digit (UInt8.ofNat number)) = true ∧
      value (digit (UInt8.ofNat number)) = UInt8.ofNat number := by decide
  have this := all nibble.toNat small
  rwa [UInt8.ofNat_toNat] at this

/-- A digit stands for a nibble, and is the digit of that nibble. -/
theorem value_of_isDigit {byte : UInt8} (hex : isDigit byte = true) :
    (value byte).toNat < 16 ∧ digit (value byte) = byte := by
  have all : ∀ number < 256, isDigit (UInt8.ofNat number) = true →
      (value (UInt8.ofNat number)).toNat < 16 ∧
        digit (value (UInt8.ofNat number)) = UInt8.ofNat number := by decide +kernel
  have this := all byte.toNat byte.toNat_lt
  rw [UInt8.ofNat_toNat] at this
  exact this hex

private theorem encode_cons (byte : UInt8) (rest : Bytes) :
    encode (byte :: rest) = digit (byte >>> 4) :: digit (byte &&& 15) :: encode rest := rfl

private theorem isDigit_of_mem_encode {bytes : Bytes} : ∀ byte ∈ encode bytes, isDigit byte = true
    := by
  induction bytes with
  | nil => nofun
  | cons byte rest ih =>
      rw [encode_cons, List.forall_mem_cons, List.forall_mem_cons]
      exact ⟨(digit_of_small (high_small byte)).1, (digit_of_small (low_small byte)).1, ih⟩

private theorem decode_encode (bytes : Bytes) : decode (encode bytes) = bytes := by
  induction bytes with
  | nil => rfl
  | cons byte rest ih =>
      rw [encode_cons, decode, (digit_of_small (high_small byte)).2,
        (digit_of_small (low_small byte)).2, high_low, ih]

private theorem encode_decode : ∀ {text : Bytes}, text.length % 2 = 0 →
    (∀ byte ∈ text, isDigit byte = true) → encode (decode text) = text
  | [], _, _ => rfl
  | [_], odd, _ => nomatch odd
  | high :: low :: rest, even, hex => by
    obtain ⟨highHex, lowHex, restHex⟩ : isDigit high = true ∧ isDigit low = true ∧
        ∀ byte ∈ rest, isDigit byte = true := by simpa using hex
    obtain ⟨highSmall, highDigit⟩ := value_of_isDigit highHex
    obtain ⟨lowSmall, lowDigit⟩ := value_of_isDigit lowHex
    obtain ⟨highSame, lowSame⟩ := nibbles_eq highSmall lowSmall
    have further : encode (decode rest) = rest := by
      apply encode_decode _ restHex
      rw [List.length_cons, List.length_cons] at even
      omega
    rw [decode, encode_cons, highSame, lowSame, highDigit, lowDigit, further]

end Hex

namespace Digest

private theorem isText_text (digest : Digest) : isText digest.text = true :=
  isText_iff.mpr ⟨digest.length_text, Hex.isDigit_of_mem_encode⟩

/-- A text is read as the digest whose text form it is. -/
theorem parse_eq_ok_iff {text : Bytes} {digest : Digest} :
    parse text = .ok digest ↔ digest.text = text := by
  unfold parse ofText?
  constructor
  · intro read
    split at read
    · rename_i found
      cases read
      split at found
      · rename_i valid
        cases found
        obtain ⟨length, hex⟩ := isText_iff.mp valid
        exact Hex.encode_decode (by rw [length]) hex
      · cases found
    · cases read
  · rintro rfl
    rw [dif_pos digest.isText_text]
    obtain ⟨bytes, length⟩ := digest
    simp only [Digest.text, Hex.decode_encode]

private theorem exists_of_isText {text : Bytes} (valid : isText text = true) :
    ∃ digest, parse text = .ok digest := by
  unfold parse ofText?
  rw [dif_pos valid]
  exact ⟨_, rfl⟩

private theorem parse_of_not_isText {text : Bytes} (invalid : isText text = false) :
    parse text = .error (.invalidDigest text) := by
  rw [parse, ofText?, dif_neg (by simp [invalid])]

private theorem text_injective {first second : Digest} (same : first.text = second.text) :
    first = second := by
  have read : parse second.text = .ok first := parse_eq_ok_iff.mpr same
  rw [parse_eq_ok_iff.mpr rfl] at read
  exact (Except.ok.inj read).symm

/-- **Digests and their text forms.** The text form of a digest is 64 lowercase hexadecimal digits,
which is what a text form is recognized by, and is read back as that digest. Every text form is read
as a digest that has it; any other text is refused as an invalid argument. So digests are the same
exactly if their text forms are, and a content has a name exactly if the name is read as its
digest. -/
theorem text_bijective :
    (∀ digest : Digest, digest.text.length = 64 ∧
      (∀ byte ∈ digest.text, byte ∈ ascii "0123456789abcdef") ∧ isText digest.text = true ∧
      parse digest.text = .ok digest) ∧
    (∀ text, if isText text = true then ∃ digest, parse text = .ok digest ∧ digest.text = text
      else parse text = .error (.invalidDigest text) ∧
        (Failure.invalidDigest text).kind = .coded .invalidArguments) ∧
    (∀ first second : Digest, first = second ↔ first.text = second.text) ∧
    ∀ content text, nameOf content = text ↔ parse text = .ok (ofContent content) := by
  refine ⟨fun digest => ?_, fun text => ?_, fun first second => ?_, fun content text => ?_⟩
  · have hex : ∀ byte ∈ digest.text, byte ∈ ascii "0123456789abcdef" := fun byte member =>
      Hex.isDigit_iff_mem.mp (Hex.isDigit_of_mem_encode byte member)
    exact ⟨digest.length_text, hex, digest.isText_text, parse_eq_ok_iff.mpr rfl⟩
  · split
    · rename_i valid
      obtain ⟨digest, read⟩ := exists_of_isText valid
      exact ⟨digest, read, parse_eq_ok_iff.mp read⟩
    · rename_i invalid
      exact ⟨parse_of_not_isText (Bool.eq_false_iff.mpr invalid), rfl⟩
  · exact ⟨congrArg text, text_injective⟩
  · exact parse_eq_ok_iff.symm

end Digest

end StoreAudit
