import StoreAudit.Text.Bytes

/-!
# Bracket expressions

A bracket expression `[…]` matches one byte out of a set written as single bytes, ranges, named
classes `[:alpha:]`, equivalence classes `[=a=]` and collating symbols `[.a.]`, all over plain
bytes. The set is read from left to right and reading stops at the first member that matches; what
then remains up to the closing bracket is skipped by a laxer rule. The two rules differ on malformed
expressions only, so both are written down. Under either rule a pattern that ends before the closing
bracket holds no expression, and its opening bracket stands for itself.
-/

namespace StoreAudit.Glob

/-- The named classes of bytes. -/
def className? (name : Bytes) : Option (UInt8 → Bool) :=
  (classes.find? fun entry => ascii entry.1 == name).map (·.2)
where
  /-- Lowercase letters. -/
  lower (byte : UInt8) : Bool := 97 ≤ byte && byte ≤ 122
  /-- Uppercase letters. -/
  upper (byte : UInt8) : Bool := 65 ≤ byte && byte ≤ 90
  /-- Decimal digits. -/
  digit (byte : UInt8) : Bool := 48 ≤ byte && byte ≤ 57
  /-- Printable bytes other than the space. -/
  graph (byte : UInt8) : Bool := 33 ≤ byte && byte ≤ 126
  /-- Letters and digits. -/
  alnum (byte : UInt8) : Bool := lower byte || upper byte || digit byte
  /-- Every class with its name. -/
  classes : List (String × (UInt8 → Bool)) :=
    [("alpha", fun byte => lower byte || upper byte),
     ("digit", digit),
     ("alnum", alnum),
     ("upper", upper),
     ("lower", lower),
     ("space", Bytes.isBlank),
     ("blank", fun byte => byte == 32 || byte == 9),
     ("punct", fun byte => graph byte && !alnum byte),
     ("print", fun byte => 32 ≤ byte && byte ≤ 126),
     ("graph", graph),
     ("cntrl", fun byte => byte < 32 || byte == 127),
     ("xdigit", fun byte => digit byte || (65 ≤ byte && byte ≤ 70) || (97 ≤ byte && byte ≤ 102))]

/-- The number of bytes within which a class name must end. -/
def maxClassName : Nat := 2048

/-- What stands after `[:`. -/
inductive ClassName where
  /-- A name closed by `:]`, and what follows. -/
  | named (name rest : Bytes)
  /-- No class name after all: the bracket stands for itself. -/
  | plain
  /-- A name that never ends within the limit. -/
  | tooLong

/-- Reads a class name of letters up to `:]`, which must start within a number of bytes. -/
def readClassName (limit : Nat) (pattern : Bytes) : ClassName := collect limit [] pattern
where
  /-- The name so far is reversed; `left` more letters fit. -/
  collect : Nat → Bytes → Bytes → ClassName
    | 0, _, _ => .tooLong
    | _ + 1, _, [] => .plain
    | left + 1, name, byte :: rest =>
      if byte = Ascii.colon ∧ rest.head? = some 93 then .named name.reverse rest.tail
      else if 97 ≤ byte ∧ byte < 122 then collect left (byte :: name) rest
      else .plain

/-- The text before the first `.]` and what follows it. -/
def readSymbol (pattern : Bytes) : Option (Bytes × Bytes) := collect [] pattern
where
  /-- The text so far is reversed. -/
  collect (symbol : Bytes) : Bytes → Option (Bytes × Bytes)
    | [] => none
    | byte :: rest =>
      if byte = 46 ∧ rest.head? = some 93 then some (symbol.reverse, rest.tail)
      else collect (byte :: symbol) rest

/-- One member at the start of the rest of a bracket expression. -/
inductive Member where
  /-- A member, whether it contains the byte, and the rest after it. -/
  | member (contains : Bool) (rest : Bytes)
  /-- The pattern ends inside the expression, which therefore was none. -/
  | unterminated
  /-- The expression is malformed and nothing matches. -/
  | malformed

/-- The upper end of a range, after its dash. -/
def readRangeEnd : Bytes → Option (UInt8 × Bytes)
  | [] => none
  | 91 :: 46 :: rest =>
    match readSymbol rest with
    | some ([symbol], after) => some (symbol, after)
    | _ => none
  | 92 :: byte :: rest => some (byte, rest)
  | [92] => none
  | byte :: rest => some (byte, rest)

/-- A member that starts with the byte `start`: that byte alone if `single` says so, or else a range
up to the byte after a dash, unless the dash stands before the closing bracket. -/
def readFrom (byte start : UInt8) (single : Bool) (rest : Bytes) : Member :=
  if single && start == byte then .member true rest
  else match rest with
    | 45 :: next :: after =>
      if next = 93 then .member false rest
      else match readRangeEnd (next :: after) with
        | none => .malformed
        | some (stop, remaining) => .member (decide (start ≤ byte ∧ byte ≤ stop)) remaining
    | [45] => .malformed
    | _ => .member false rest

/-- Whether a single byte stands for itself here, and does not start a range. -/
def standsAlone : Bytes → Bool
  | 45 :: next :: _ => next == 93
  | _ => true

/-- Whether a collating symbol stands for itself here. -/
def symbolStandsAlone : Bytes → Bool
  | 45 :: _ :: _ => false
  | _ => true

/-- The first member of the rest of an expression. -/
def readMember (byte : UInt8) : Bytes → Member
  | [] => .unterminated
  | 92 :: rest =>
    match rest with
    | [] => .malformed
    | escaped :: after => readFrom byte escaped (standsAlone after) after
  | 91 :: 58 :: rest =>
    match readClassName maxClassName rest with
    | .tooLong => .malformed
    | .plain => readFrom byte 91 (standsAlone (58 :: rest)) (58 :: rest)
    | .named name after =>
      match className? name with
      | none => .malformed
      | some contains => .member (contains byte) after
  | 91 :: 61 :: rest =>
    match rest with
    | symbol :: 61 :: 93 :: after => .member (symbol == byte) after
    | _ => readFrom byte 91 (standsAlone (61 :: rest)) (61 :: rest)
  | 91 :: 46 :: rest =>
    match readSymbol rest with
    | some ([symbol], after) => readFrom byte symbol (symbolStandsAlone after) after
    | _ => .malformed
  | start :: rest => readFrom byte start (standsAlone rest) rest

/-- What a bracket expression does with a byte. -/
inductive Verdict where
  /-- The byte is in the set; the pattern goes on with the rest. -/
  | inside (rest : Bytes)
  /-- The byte is not in the set; the pattern goes on with the rest. -/
  | outside (rest : Bytes)
  /-- The pattern ends before the closing bracket, so the bracket stands for itself. -/
  | literal
  /-- Nothing matches. -/
  | never

/-- How an expression ends, once a member has matched. -/
inductive Closing where
  /-- With its closing bracket, and what follows. -/
  | closed (rest : Bytes)
  /-- The pattern ends inside the expression, which therefore was none. -/
  | unterminated
  /-- The expression is malformed and nothing matches. -/
  | malformed

/-- Looks for the closing bracket after a member that has matched. A class name here must end one
byte earlier. -/
def skip (pattern : Bytes) : Closing := advance pattern.length pattern
where
  /-- Each step drops at least one byte, so the length of the text bounds the steps. -/
  advance : Nat → Bytes → Closing
    | _, [] => .unterminated
    | 0, _ => .unterminated
    | _ + 1, 93 :: rest => .closed rest
    | _ + 1, [92] => .malformed
    | left + 1, 92 :: _ :: rest => advance left rest
    | left + 1, 91 :: 58 :: rest =>
      match readClassName (maxClassName - 1) rest with
      | .tooLong => .malformed
      | .plain => advance left (58 :: rest)
      | .named _ after => advance left after
    | left + 1, 91 :: 61 :: rest =>
      match rest with
      | _ :: 61 :: 93 :: after => advance left after
      | _ => .malformed
    | left + 1, 91 :: 46 :: rest =>
      match readSymbol rest with
      | none => .malformed
      | some (_, after) => advance left after
    | left + 1, _ :: rest => advance left rest

/-- Whether a byte is in the set that starts here, just after the bracket and its negation sign.
A closing bracket in the first place is a member. -/
def search (byte : UInt8) (pattern : Bytes) : Verdict := advance pattern.length pattern
where
  /-- Each member takes at least one byte, so the length of the text bounds the members. -/
  advance : Nat → Bytes → Verdict
    | 0, _ => .literal
    | left + 1, pattern =>
      match readMember byte pattern with
      | .unterminated => .literal
      | .malformed => .never
      | .member true rest =>
        match skip rest with
        | .closed after => .inside after
        | .unterminated => .literal
        | .malformed => .never
      | .member false (93 :: rest) => .outside rest
      | .member false rest => advance left rest

/-- What the bracket expression after an opening bracket does with a byte: the pattern goes on, the
bracket stands for itself, or nothing matches. -/
inductive Step where
  | goOn (rest : Bytes)
  | literal
  | stop

/-- The step over a bracket expression; `!` or `^` in front negates the set. -/
def bracket (byte : UInt8) (pattern : Bytes) : Step :=
  match pattern with
  | 33 :: rest | 94 :: rest =>
    match search byte rest with
    | .outside after => .goOn after
    | .inside _ | .never => .stop
    | .literal => .literal
  | _ =>
    match search byte pattern with
    | .inside after => .goOn after
    | .outside _ | .never => .stop
    | .literal => .literal

end StoreAudit.Glob
