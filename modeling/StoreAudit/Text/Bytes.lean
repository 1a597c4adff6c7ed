/-!
# Byte text

Names, lines and file contents are byte strings; nothing in the store is assumed to be valid
Unicode. This module fixes the type, the way literals are written, and the trimming rules.
-/

namespace StoreAudit

/-- Text is a list of bytes. -/
abbrev Bytes := List UInt8

/-- The bytes of an ASCII literal. -/
def ascii (literal : String) : Bytes := literal.toList.map Char.toUInt8

namespace Ascii

/-- The line separator. -/
@[match_pattern] abbrev newline : UInt8 := 10

/-- The byte that may precede a line separator. -/
@[match_pattern] abbrev carriageReturn : UInt8 := 13

/-- The horizontal tab. -/
@[match_pattern] abbrev tab : UInt8 := 9

/-- The space. -/
@[match_pattern] abbrev space : UInt8 := 32

/-- The path separator. -/
@[match_pattern] abbrev slash : UInt8 := 47

/-- The first decimal digit. -/
@[match_pattern] abbrev zero : UInt8 := 48

/-- The list separator. -/
@[match_pattern] abbrev comma : UInt8 := 44

/-- The separator between a hash type and its digits. -/
@[match_pattern] abbrev colon : UInt8 := 58

/-- The sign that starts an option. -/
@[match_pattern] abbrev dash : UInt8 := 45

end Ascii

namespace Bytes

/-- The six blank bytes: the space and the five controls from tab to carriage return. -/
def isBlank (byte : UInt8) : Bool := byte == 32 || (9 ≤ byte && byte ≤ 13)

/-- The ten decimal digits. -/
def isDigit (byte : UInt8) : Bool := 48 ≤ byte && byte ≤ 57

/-- Text without the blanks at its two ends. -/
def trim (text : Bytes) : Bytes :=
  ((text.dropWhile isBlank).reverse.dropWhile isBlank).reverse

/-- The part before the first zero byte: what a zero-terminated reader sees. -/
def beforeNul (text : Bytes) : Bytes := text.takeWhile (· != 0)

/-- Whether `text` begins with `part`. -/
def startsWith (text part : Bytes) : Bool := part.isPrefixOf text

/-- Whether `text` ends with `part`. -/
def endsWith (text part : Bytes) : Bool := part.isSuffixOf text

/-- A text starts with its prefixes. -/
theorem startsWith_iff {text part : Bytes} : startsWith text part = true ↔ part <+: text :=
  List.isPrefixOf_iff_prefix

/-- A text ends with its suffixes. -/
theorem endsWith_iff {text part : Bytes} : endsWith text part = true ↔ part <:+ text :=
  List.isSuffixOf_iff_suffix

/-- Trailing copies of `byte` dropped, as long as more than one byte remains. -/
def dropTrailing (byte : UInt8) (text : Bytes) : Bytes := (strip text.reverse).reverse
where
  /-- Leading copies dropped from a reversed text. -/
  strip : Bytes → Bytes
    | [] => []
    | [only] => [only]
    | first :: second :: rest =>
      if first = byte then strip (second :: rest) else first :: second :: rest

end Bytes

end StoreAudit
