import StoreAudit.Glob.Basic

/-!
# Attribute files

An attribute file gives, line by line, a pattern and the attributes of the paths that it matches
below the directory of the file. Only the `filter` attribute counts here: a path is tracked when the
last rule that matches it says `filter=lfs`. Rules are kept from the shallowest file to the deepest
and, in a file, in the order of its lines, so the last match is the most specific one.
-/

namespace StoreAudit

/-- What one line says about the filter of the paths it matches. -/
structure AttributeRule where
  directory : Bytes
  pattern : Bytes
  tracked : Bool
  deriving DecidableEq, Repr

/-- The rules of a set of attribute files, from the weakest to the strongest. -/
structure Attributes where
  rules : List AttributeRule := []
  deriving DecidableEq, Repr

namespace AttributeRule

/-- The words of a line, between blanks of two kinds. -/
def words (line : Bytes) : List Bytes :=
  (Bytes.split Ascii.space
    (line.map fun byte => if byte = Ascii.tab then Ascii.space else byte)).filter (!·.isEmpty)

/-- What an attribute word says about the filter, if it is about the filter. -/
def filterWord (word : Bytes) : Option Bool :=
  if word = ascii "filter=lfs" then some true
  else if word = ascii "filter" ∨ word = ascii "-filter" ∨ word = ascii "!filter" ∨
      word.startsWith (ascii "filter=") = true then some false
  else none

/-- The rule of a line. Comments, macro definitions, lines that leave the filter alone and patterns
that name directories give none; of several words about the filter the last one counts. -/
def ofLine? (directory line : Bytes) : Option AttributeRule :=
  let line := line.trim
  if line.isEmpty || line.head? = some 35 || line.startsWith (ascii "[attr]") then none
  else match words line with
    | pattern :: attributes =>
      match (attributes.filterMap filterWord).getLast? with
      | some tracked =>
        if pattern.endsWith [Ascii.slash] then none else some ⟨directory, pattern, tracked⟩
      | none => none
    | [] => none

/-- The rules of a file in the order of its lines. -/
def ofFile (directory contents : Bytes) : List AttributeRule :=
  (Bytes.split Ascii.newline contents).filterMap (ofLine? directory)

/-- A path relative to the directory of the rule, if it lies below it. -/
def relative? (rule : AttributeRule) (path : Bytes) : Option Bytes :=
  if rule.directory.isEmpty then some path
  else if path.startsWith (rule.directory ++ [Ascii.slash]) then
    some (path.drop (rule.directory.length + 1))
  else none

/-- Whether a pattern of an attribute file matches a relative path: without a slash it is matched
against the last component, with one against the whole path. -/
def patternMatches (pattern path : Bytes) : Bool :=
  if pattern.contains Ascii.slash then
    let anchored := if pattern.head? = some Ascii.slash then pattern.tail else pattern
    Glob.accepts (Glob.slashRule anchored) anchored path
  else Glob.accepts .ordinary pattern (path.reverse.takeWhile (· != Ascii.slash)).reverse

/-- Whether the rule applies to a path. -/
def appliesTo (rule : AttributeRule) (path : Bytes) : Bool :=
  match rule.relative? path with
  | none => false
  | some relative => patternMatches rule.pattern relative

end AttributeRule

namespace Attributes

/-- How deep a directory lies below the top. -/
def depth (directory : Bytes) : Nat :=
  if directory.isEmpty then 0 else directory.count Ascii.slash + 1

/-- The rules with those of one more file, after all rules of files that are not deeper. -/
def addFile (attributes : Attributes) (directory contents : Bytes) : Attributes :=
  let shallow := fun (rule : AttributeRule) => depth rule.directory ≤ depth directory
  ⟨attributes.rules.takeWhile shallow ++ AttributeRule.ofFile directory contents ++
    attributes.rules.dropWhile shallow⟩

/-- Whether a path should be a pointer: the verdict of the last rule that applies. -/
def isTracked (attributes : Attributes) (path : Bytes) : Bool :=
  match attributes.rules.reverse.find? (·.appliesTo path) with
  | some rule => rule.tracked
  | none => false

/-- Whether there is no rule. -/
def isEmpty (attributes : Attributes) : Bool := attributes.rules.isEmpty

end Attributes

end StoreAudit
