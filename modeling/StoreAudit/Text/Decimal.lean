import StoreAudit.Text.Bytes

/-!
# Decimal numerals

Sizes and counts are read as unsigned 64-bit words, with the overflow test made before each step,
and written without sign for a natural number and with a minus for a negative one.
-/

namespace StoreAudit.Decimal

/-- The largest word. -/
def maxWord : UInt64 := 18446744073709551615

/-- One digit appended to a word, unless the byte is no digit or the result would not fit. -/
def push? (value : UInt64) (byte : UInt8) : Option UInt64 :=
  if Bytes.isDigit byte then
    let digit := (byte - Ascii.zero).toUInt64
    if value > (maxWord - digit) / 10 then none else some (value * 10 + digit)
  else none

/-- The word that a non-empty run of digits denotes; leading zeros are allowed. -/
def toWord? (text : Bytes) : Option UInt64 :=
  if text.isEmpty then none else text.foldlM push? 0

/-- Reads a word in place of the one that the caller holds: whether the text denotes one, and what
the caller holds then, which a text that denotes none leaves alone. -/
def readInto (held : UInt64) (text : Bytes) : Bool × UInt64 :=
  match toWord? text with
  | some word => (true, word)
  | none => (false, held)

/-- The shortest numeral of a natural number. -/
def ofNat (value : Nat) : Bytes := (Nat.toDigits 10 value).map Char.toUInt8

/-- The shortest numeral of an integer. -/
def ofInt : Int → Bytes
  | .ofNat value => ofNat value
  | .negSucc value => Ascii.dash :: ofNat (value + 1)

end StoreAudit.Decimal
