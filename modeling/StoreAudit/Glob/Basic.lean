import StoreAudit.Glob.Bracket
import StoreAudit.Text.Split

/-!
# Shell patterns

A pattern is matched against a whole text, byte by byte. `?` stands for one byte, `*` for any run of
bytes, `[…]` for one byte of a set, and a backslash takes the next byte literally. Under
`SlashRule.literal` a slash in the text is matched by a slash in the pattern only.

The matcher works from star to star: the part of the pattern before the next star is tried at each
place of the text in turn, and the first place where it fits is kept. A later place can never help,
because the following star may take the bytes in between.
-/

namespace StoreAudit.Glob

/-- Which parts of a pattern may match a slash. -/
inductive SlashRule where
  /-- Only a slash in the pattern. -/
  | literal
  /-- A slash is a byte like any other. -/
  | ordinary
  deriving DecidableEq, Repr

/-- Whether a wildcard may stand for a byte. -/
def SlashRule.admits (rule : SlashRule) (byte : UInt8) : Bool :=
  rule == .ordinary || byte != Ascii.slash

/-- Two stars next to each other let a pattern cross directories. -/
def slashRule (pattern : Bytes) : SlashRule :=
  if pattern.mentions (ascii "**") then .ordinary else .literal

/-- How far the part of a pattern before its next star fits at the front of a text. -/
inductive Fit where
  /-- The text does not fit. -/
  | mismatch
  /-- Pattern and text are used up together. -/
  | complete
  /-- A star is next, with the pattern after it and the text not yet used. -/
  | star (pattern text : Bytes)

/-- Matches the part before the next star; `left` bounds the steps by the length of the pattern. -/
def fit (rule : SlashRule) : Nat → Bytes → Bytes → Fit
  | _, [], [] => .complete
  | _, [], _ :: _ => .mismatch
  | 0, _, _ => .mismatch
  | _ + 1, 42 :: pattern, text => .star pattern text
  | _ + 1, _ :: _, [] => .mismatch
  | left + 1, 63 :: pattern, byte :: text =>
    if rule.admits byte then fit rule left pattern text else .mismatch
  | _ + 1, [92], _ => .mismatch
  | left + 1, 92 :: escaped :: pattern, byte :: text =>
    if escaped = byte then fit rule left pattern text else .mismatch
  | left + 1, 91 :: pattern, byte :: text =>
    if rule.admits byte then
      match bracket byte pattern with
      | .goOn rest => fit rule left rest text
      | .literal => if byte = 91 then fit rule left pattern text else .mismatch
      | .stop => .mismatch
    else .mismatch
  | left + 1, expected :: pattern, byte :: text =>
    if expected = byte then fit rule left pattern text else .mismatch

/-- The pattern and text after a run of stars and question marks, each of which takes a byte. -/
def skipWildcards (rule : SlashRule) : Bytes → Bytes → Option (Bytes × Bytes)
  | 42 :: pattern, text => skipWildcards rule pattern text
  | 63 :: pattern, byte :: text =>
    if rule.admits byte then skipWildcards rule pattern text else none
  | 63 :: _, [] => none
  | pattern, text => some (pattern, text)

/-- The first place where the part before the next star fits. A star does not reach past a slash it
may not stand for; the slash itself is tried only when the pattern goes on with one. -/
def place (rule : SlashRule) (pattern : Bytes) : Bytes → Fit
  | [] => .mismatch
  | byte :: text =>
    if rule.admits byte then
      match fit rule pattern.length pattern (byte :: text) with
      | .mismatch => place rule pattern text
      | found => found
    else if pattern.head? = some Ascii.slash then fit rule pattern.length pattern (byte :: text)
    else .mismatch

/-- Whether what follows a star matches; `left` bounds the number of stars. -/
def afterStar (rule : SlashRule) : Nat → Bytes → Bytes → Bool
  | left, pattern, text =>
    match skipWildcards rule pattern text with
    | none => false
    | some ([], rest) => rest.all rule.admits
    | some (next, rest) =>
      match place rule next rest with
      | .mismatch => false
      | .complete => true
      | .star following unused =>
        match left with
        | 0 => false
        | fewer + 1 => afterStar rule fewer following unused

/-- Whether a pattern matches a whole text. Both end before their first zero byte. -/
def accepts (rule : SlashRule) (pattern text : Bytes) : Bool :=
  let pattern := pattern.beforeNul
  let text := text.beforeNul
  match fit rule pattern.length pattern text with
  | .mismatch => false
  | .complete => true
  | .star following unused => afterStar rule pattern.length following unused

end StoreAudit.Glob
