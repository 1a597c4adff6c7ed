import Mathlib.Algebra.Group.Nat.Defs
import StoreAudit.Text.Decimal

/-!
# What numerals denote

A numeral is a run of digits, of which the first ones may be zeros. Reading one gives its number
exactly if that fits a word, since no step before the last can exceed it
(`Decimal.toWord?_eq_some_iff`), and the text that is written for a number denotes it
(`Decimal.denotes_ofNat`).
-/

namespace StoreAudit.Decimal

/-- The number after digits that continue another one. -/
def valueFrom (start : Nat) (digits : Bytes) : Nat :=
  digits.foldl (fun (value : Nat) (byte : UInt8) => value * 10 + (byte.toNat - 48)) start

/-- The number of a run of digits, whatever its size. -/
def value (digits : Bytes) : Nat := valueFrom 0 digits

/-- The text is a numeral of the number. -/
structure Denotes (text : Bytes) (number : Nat) : Prop where
  nonempty : text ≠ []
  digits : ∀ byte ∈ text, Bytes.isDigit byte = true
  value : Decimal.value text = number

/-- The digits by their numbers. -/
theorem isDigit_iff {byte : UInt8} :
    Bytes.isDigit byte = true ↔ 48 ≤ byte.toNat ∧ byte.toNat ≤ 57 := by
  simp [Bytes.isDigit, UInt8.le_iff_toNat_le]

private theorem le_valueFrom (start : Nat) (digits : Bytes) : start ≤ valueFrom start digits := by
  induction digits generalizing start with
  | nil => exact Nat.le_refl start
  | cons byte rest ih =>
      have step := ih (start * 10 + (byte.toNat - 48))
      change start ≤ valueFrom (start * 10 + (byte.toNat - 48)) rest
      omega

private theorem value_append (digits : Bytes) (byte : UInt8) :
    value (digits ++ [byte]) = value digits * 10 + (byte.toNat - 48) := by
  simp [value, valueFrom]

/-- The number of a digit. -/
theorem toNat_digit {byte : UInt8} (digit : Bytes.isDigit byte = true) :
    (byte - Ascii.zero).toUInt64.toNat = byte.toNat - 48 := by
  have bounds := isDigit_iff.mp digit
  have fits : Ascii.zero ≤ byte := UInt8.le_iff_toNat_le.mpr bounds.1
  rw [UInt8.toNat_toUInt64, UInt8.toNat_sub_of_le _ _ fits]
  rfl

/-- The test before a step is exact: it refuses a digit only if the result does not fit. -/
theorem push?_eq_some_iff {word next : UInt64} {byte : UInt8} :
    push? word byte = some next ↔ Bytes.isDigit byte = true ∧
      word.toNat * 10 + (byte.toNat - 48) < 2 ^ 64 ∧
      next.toNat = word.toNat * 10 + (byte.toNat - 48) := by
  unfold push?
  by_cases digit : Bytes.isDigit byte = true
  · have small := isDigit_iff.mp digit
    have size := toNat_digit digit
    have most : maxWord.toNat = 2 ^ 64 - 1 := rfl
    have room : (maxWord - (byte - Ascii.zero).toUInt64).toNat =
        2 ^ 64 - 1 - (byte.toNat - 48) := by
      rw [UInt64.toNat_sub_of_le, size, most]
      rw [UInt64.le_iff_toNat_le, size, most]
      omega
    have exact : word > (maxWord - (byte - Ascii.zero).toUInt64) / 10 ↔
        2 ^ 64 ≤ word.toNat * 10 + (byte.toNat - 48) := by
      rw [gt_iff_lt, UInt64.lt_iff_toNat_lt, UInt64.toNat_div, room]
      change (2 ^ 64 - 1 - (byte.toNat - 48)) / 10 < word.toNat ↔ _
      omega
    simp only [digit, if_true, true_and]
    split
    · rename_i full
      have tooLarge := exact.mp full
      constructor
      · rintro ⟨⟩
      · intro fits
        omega
    · rename_i free
      have fits : word.toNat * 10 + (byte.toNat - 48) < 2 ^ 64 := by
        have := mt exact.mpr free
        omega
      have next_toNat : (word * 10 + (byte - Ascii.zero).toUInt64).toNat =
          word.toNat * 10 + (byte.toNat - 48) := by
        rw [UInt64.toNat_add, UInt64.toNat_mul, size]
        change (word.toNat * 10 % 2 ^ 64 + (byte.toNat - 48)) % 2 ^ 64 = _
        omega
      constructor
      · intro result
        rw [← Option.some.inj result]
        exact ⟨fits, next_toNat⟩
      · rintro ⟨-, result⟩
        exact congrArg some (UInt64.toNat_inj.mp (next_toNat.trans result.symm))
  · simp [digit]

private theorem foldlM_push?_eq_some_iff {text : Bytes} {start word : UInt64} :
    text.foldlM push? start = some word ↔ (∀ byte ∈ text, Bytes.isDigit byte = true) ∧
      valueFrom start.toNat text < 2 ^ 64 ∧ word.toNat = valueFrom start.toNat text := by
  induction text generalizing start with
  | nil =>
      have fits := start.toNat_lt
      simp only [List.foldlM_nil, List.not_mem_nil, false_implies, implies_true, true_and]
      constructor
      · rintro ⟨⟩
        exact ⟨fits, rfl⟩
      · rintro ⟨-, same⟩
        exact congrArg some (UInt64.toNat_inj.mp same.symm)
  | cons byte rest ih =>
      rw [List.foldlM_cons, Option.bind_eq_bind, Option.bind_eq_some_iff]
      have more : valueFrom start.toNat (byte :: rest) =
          valueFrom (start.toNat * 10 + (byte.toNat - 48)) rest := rfl
      constructor
      · rintro ⟨next, step, further⟩
        obtain ⟨digit, -, value⟩ := push?_eq_some_iff.mp step
        obtain ⟨digits, fits, result⟩ := ih.mp further
        rw [value] at fits result
        exact ⟨List.forall_mem_cons.mpr ⟨digit, digits⟩, fits, result⟩
      · rintro ⟨digits, fits, result⟩
        obtain ⟨digit, digits⟩ := List.forall_mem_cons.mp digits
        -- A step that overflows can only be followed by larger numbers.
        have small : start.toNat * 10 + (byte.toNat - 48) < 2 ^ 64 :=
          Nat.lt_of_le_of_lt (le_valueFrom _ rest) (more ▸ fits)
        let next := UInt64.ofNat (start.toNat * 10 + (byte.toNat - 48))
        have value : next.toNat = start.toNat * 10 + (byte.toNat - 48) :=
          UInt64.toNat_ofNat_of_lt' small
        refine ⟨next, push?_eq_some_iff.mpr ⟨digit, small, value⟩, ih.mpr ?_⟩
        rw [value]
        exact ⟨digits, more ▸ fits, more ▸ result⟩

/-- Exactly the numerals of numbers that fit a word are read, and as these numbers. -/
theorem toWord?_eq_some_iff {text : Bytes} {word : UInt64} :
    toWord? text = some word ↔ Denotes text word.toNat := by
  unfold toWord?
  cases text with
  | nil => exact ⟨nofun, fun denotes => absurd rfl denotes.nonempty⟩
  | cons byte rest =>
      have start : valueFrom (0 : UInt64).toNat (byte :: rest) = value (byte :: rest) := rfl
      rw [if_neg (by simp), foldlM_push?_eq_some_iff, start]
      constructor
      · rintro ⟨digits, -, same⟩
        exact ⟨by simp, digits, same.symm⟩
      · intro denotes
        exact ⟨denotes.digits, denotes.value ▸ word.toNat_lt, denotes.value.symm⟩

private theorem toUInt8_digitChar {digit : Nat} (small : digit < 10) :
    (Nat.digitChar digit).toUInt8 = UInt8.ofNat (48 + digit) := by
  revert digit
  decide

/-- The last digit of a number stands at the end of its text. -/
theorem ofNat_eq (number : Nat) :
    ofNat number =
      (if number < 10 then [] else ofNat (number / 10)) ++ [UInt8.ofNat (48 + number % 10)] := by
  unfold ofNat
  rw [Nat.toDigits_eq_if (by omega)]
  split
  · rename_i small
    simp [toUInt8_digitChar small, Nat.mod_eq_of_lt small]
  · simp [toUInt8_digitChar (Nat.mod_lt number (by omega : 10 > 0))]

/-- What is written for a number denotes it. -/
theorem denotes_ofNat (number : Nat) : Denotes (ofNat number) number := by
  induction number using Nat.strongRecOn with
  | ind number ih =>
      have last : (UInt8.ofNat (48 + number % 10)).toNat = 48 + number % 10 := by
        rw [UInt8.toNat_ofNat']
        omega
      have digit : Bytes.isDigit (UInt8.ofNat (48 + number % 10)) = true := by
        rw [isDigit_iff, last]
        omega
      refine ⟨by rw [ofNat_eq]; simp, ?_, ?_⟩
      · rw [ofNat_eq, List.forall_mem_append, List.forall_mem_singleton]
        refine ⟨?_, digit⟩
        split
        · exact fun _ impossible => nomatch impossible
        · exact (ih (number / 10) (by omega)).digits
      · rw [ofNat_eq, value_append, last]
        split
        · change 0 * 10 + _ = _
          omega
        · rw [(ih (number / 10) (by omega)).value]
          omega

end StoreAudit.Decimal
