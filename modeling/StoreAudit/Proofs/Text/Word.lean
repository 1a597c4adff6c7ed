import StoreAudit.Proofs.Text.Decimal

/-!
# Reading words without leaving their range

What the caller of `Decimal.readInto` holds afterwards, for every text and whatever it held before.
Words wrap around silently, so that nothing does so on the way to the result is said by reading once
more with operations that stop instead: they never do (`Decimal.readInto_of_text`).
-/

namespace StoreAudit.Decimal

/-- The end of their range at which words would wrap around. -/
inductive Wrap where
  | below
  | above
  deriving DecidableEq, Repr

namespace Strict

/-- The difference of two words. -/
def sub (first second : UInt64) : Except Wrap UInt64 :=
  if second ≤ first then .ok (first - second) else .error .below

/-- The sum of two words. -/
def add (first second : UInt64) : Except Wrap UInt64 :=
  if first.toNat + second.toNat < 2 ^ 64 then .ok (first + second) else .error .above

/-- The product of two words. -/
def mul (first second : UInt64) : Except Wrap UInt64 :=
  if first.toNat * second.toNat < 2 ^ 64 then .ok (first * second) else .error .above

/-- The number of a digit. -/
def digit (byte : UInt8) : Except Wrap UInt64 :=
  if Ascii.zero ≤ byte then .ok (byte - Ascii.zero).toUInt64 else .error .below

/-- One digit appended to a word. -/
def push? (value : UInt64) (byte : UInt8) : Except Wrap (Option UInt64) :=
  if Bytes.isDigit byte then do
    let number ← digit byte
    let room ← sub maxWord number
    if value > room / 10 then pure none
    else mul value 10 >>= fun shifted => (add shifted number).map some
  else pure none

/-- The word of digits that continue another one. -/
def pushAll? (value : UInt64) : Bytes → Except Wrap (Option UInt64)
  | [] => pure (some value)
  | byte :: rest => do
    match ← push? value byte with
    | some next => pushAll? next rest
    | none => pure none

/-- The word that a text denotes. -/
def toWord? (text : Bytes) : Except Wrap (Option UInt64) :=
  if text.isEmpty then pure none else pushAll? 0 text

private theorem digit_eq {byte : UInt8} (isDigit : Bytes.isDigit byte = true) :
    digit byte = .ok (byte - Ascii.zero).toUInt64 := by
  have lowest : Ascii.zero ≤ byte := UInt8.le_iff_toNat_le.mpr (isDigit_iff.mp isDigit).1
  exact if_pos lowest

/-- The room above a digit is there. -/
theorem sub_maxWord_eq (number : UInt64) : sub maxWord number = .ok (maxWord - number) := by
  have most : maxWord.toNat = 2 ^ 64 - 1 := rfl
  have fits : number ≤ maxWord := by
    have bound := number.toNat_lt
    rw [UInt64.le_iff_toNat_le, most]
    omega
  exact if_pos fits

private theorem add_eq {first second : UInt64} (fits : first.toNat + second.toNat < 2 ^ 64) :
    add first second = .ok (first + second) := if_pos fits

private theorem mul_eq {first second : UInt64} (fits : first.toNat * second.toNat < 2 ^ 64) :
    mul first second = .ok (first * second) := if_pos fits

/-- On a digit, no operation before the test of a step stops. -/
theorem push?_of_isDigit {byte : UInt8} (isDigit : Bytes.isDigit byte = true) (value : UInt64) :
    push? value byte =
      if value > (maxWord - (byte - Ascii.zero).toUInt64) / 10 then .ok none
      else mul value 10 >>= fun shifted =>
        (add shifted (byte - Ascii.zero).toUInt64).map some := by
  rw [push?, if_pos isDigit, digit_eq isDigit]
  simp only [bind, Except.bind, sub_maxWord_eq]
  rfl

/-- A step does what it does with operations that wrap around. -/
theorem push?_eq (value : UInt64) (byte : UInt8) :
    push? value byte = .ok (Decimal.push? value byte) := by
  by_cases isDigit : Bytes.isDigit byte = true
  · have read : Decimal.push? value byte =
        if value > (maxWord - (byte - Ascii.zero).toUInt64) / 10 then none
        else some (value * 10 + (byte - Ascii.zero).toUInt64) :=
      if_pos isDigit
    rw [push?_of_isDigit isDigit, read]
    split
    · rfl
    · rename_i free
      -- The test before the step has made sure that its result fits, and so does all before it.
      rw [if_neg free] at read
      have fits := (push?_eq_some_iff.mp read).2.1
      have ten : (10 : UInt64).toNat = 10 := rfl
      have product : (value * 10).toNat = value.toNat * 10 := by
        rw [UInt64.toNat_mul, ten]
        omega
      have shifts : mul value 10 = .ok (value * 10) := by
        apply mul_eq
        rw [ten]
        omega
      have adds : add (value * 10) (byte - Ascii.zero).toUInt64 =
          .ok (value * 10 + (byte - Ascii.zero).toUInt64) := by
        apply add_eq
        rw [product, toNat_digit isDigit]
        exact fits
      simp only [bind, Except.bind, shifts, adds, Except.map]
  · rw [push?, if_neg isDigit, Decimal.push?, if_neg isDigit]
    rfl

/-- Nor does anything wrap around in a run of steps. -/
theorem pushAll?_eq (value : UInt64) (text : Bytes) :
    pushAll? value text = .ok (text.foldlM Decimal.push? value) := by
  induction text generalizing value with
  | nil => rfl
  | cons byte rest ih =>
      rw [pushAll?, push?_eq, List.foldlM_cons]
      cases Decimal.push? value byte with
      | none => rfl
      | some next => exact ih next

private theorem toWord?_eq (text : Bytes) : toWord? text = .ok (Decimal.toWord? text) := by
  unfold toWord? Decimal.toWord?
  split
  · rfl
  · exact pushAll?_eq 0 text

end Strict

private theorem readInto_of_denotes {held word : UInt64} {text : Bytes}
    (denotes : Denotes text word.toNat) : readInto held text = (true, word) := by
  rw [readInto, toWord?_eq_some_iff.mpr denotes]

private theorem readInto_of_unread {held : UInt64} {text : Bytes} (unread : toWord? text = none) :
    readInto held text = (false, held) := by
  rw [readInto, unread]

/-- **What reading a word leaves with the caller.** A text that is not empty, holds only the digits
from 0 to 9 and whose number is below 2^64, whatever leading zeros it has, gives that number; any
other leaves the caller what it held. No operation on the way leaves the range of words. -/
theorem readInto_of_text (held : UInt64) (text : Bytes) :
    ((readInto held text).1 = true ↔ text ≠ [] ∧
      (∀ byte ∈ text, 48 ≤ byte.toNat ∧ byte.toNat ≤ 57) ∧ value text < 2 ^ 64) ∧
    ((readInto held text).2.toNat =
      if (readInto held text).1 = true then value text else held.toNat) ∧
    Strict.toWord? text = .ok (toWord? text) := by
  simp only [← isDigit_iff]
  cases read : toWord? text with
  | some word =>
      have denotes := toWord?_eq_some_iff.mp read
      have fits : value text < 2 ^ 64 := denotes.value ▸ word.toNat_lt
      rw [readInto_of_denotes denotes, ← read]
      exact ⟨iff_of_true rfl ⟨denotes.nonempty, denotes.digits, fits⟩, denotes.value.symm,
        Strict.toWord?_eq text⟩
  | none =>
      rw [readInto_of_unread read, ← read]
      refine ⟨iff_of_false nofun ?_, rfl, Strict.toWord?_eq text⟩
      rintro ⟨nonempty, digits, fits⟩
      -- Such a text would denote a word, and so be read.
      have denotes : Denotes text (UInt64.ofNat (value text)).toNat :=
        ⟨nonempty, digits, (UInt64.toNat_ofNat_of_lt' fits).symm⟩
      rw [toWord?_eq_some_iff.mpr denotes] at read
      cases read

/-- Leading zeros do not count, and the first number that does not fit is refused. -/
example :
    readInto 7 (ascii "0000000000000000000000018446744073709551615") = (true, maxWord) ∧
      readInto 7 (ascii "18446744073709551616") = (false, 7) := by decide +kernel

end StoreAudit.Decimal
