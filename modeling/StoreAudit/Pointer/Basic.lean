import StoreAudit.Text.Split
import StoreAudit.Text.Decimal
import StoreAudit.Digest.Basic

/-!
# Pointers

A pointer is the short text that stands in history for a large object: a version line, up to ten
extension lines, the object name and the size. `encode` writes the one canonical form; `decode?`
reads the forms that occur in old histories and says whether the text was canonical.
-/

namespace StoreAudit

/-- An extension of a pointer: its place in the chain, its name and the object it made. -/
structure PointerExtension where
  priority : Int
  name : Bytes
  oid : Bytes
  deriving DecidableEq, Repr

/-- The name and size of a large object. -/
structure Pointer where
  oid : Bytes := []
  size : Int64 := 0
  extensions : List PointerExtension := []
  deriving DecidableEq

namespace Pointer

/-- The version that is written. -/
def currentVersion : Bytes := ascii "https://git-lfs.github.com/spec/v1"

/-- The versions that are read. -/
def knownVersions : List Bytes :=
  [currentVersion, ascii "https://hawser.github.com/spec/v1", ascii "http://git-media.io/v/2"]

/-- The only type of object name. -/
def oidType : Bytes := ascii "sha256"

/-- Texts of this size and more are no pointers. -/
def maxSize : Nat := 1024

/-- The number of extensions that a pointer may have. -/
def maxExtensions : Nat := 10

/-- One line: a key, a space, a value and the line separator. -/
def line (key value : Bytes) : Bytes := key ++ Ascii.space :: value ++ [Ascii.newline]

/-- The value of an object name with its type. -/
def oidValue (oid : Bytes) : Bytes := oidType ++ Ascii.colon :: oid

/-- The key of an extension line. -/
def extensionKey (ext : PointerExtension) : Bytes :=
  ascii "ext-" ++ Decimal.ofInt ext.priority ++ Ascii.dash :: ext.name

/-- The canonical text of a pointer. -/
def encode (pointer : Pointer) : Bytes :=
  line (ascii "version") currentVersion ++
    pointer.extensions.flatMap (fun ext => line (extensionKey ext) (oidValue ext.oid)) ++
    line (ascii "oid") (oidValue pointer.oid) ++
    line (ascii "size") (Decimal.ofInt pointer.size.toInt)

/-- Reads an object name with its type. -/
def parseOid? (value : Bytes) : Option Bytes :=
  match Bytes.splitFirst [Ascii.colon] value with
  | some (type, digits) => if type = oidType && Digest.isText digits then some digits else none
  | none => none

/-- Reads the key of an extension line: the priority, one digit in value, and the name. -/
def parseExtensionKey? (key : Bytes) : Option (Nat × Bytes) :=
  if key.startsWith (ascii "ext-") then
    match Bytes.splitFirst [Ascii.dash] (key.drop 4) with
    | some (digits, name) =>
      match Decimal.toWord? digits with
      | some priority =>
        if !name.isEmpty && priority.toNat < maxExtensions then some (priority.toNat, name)
        else none
      | none => none
    | none => none
  else none

/-- Reads a size: a word that fits a signed one. -/
def parseSize? (value : Bytes) : Option Int64 :=
  match Decimal.toWord? value with
  | some size => if size.toNat < Nat.pow 2 63 then some size.toInt64 else none
  | none => none

/-- The lines that carry content: those of the trimmed text, each without one trailing carriage
return, and without the lines that are all blank. -/
def contentLines (text : Bytes) : List Bytes :=
  ((Bytes.split Ascii.newline text.trim).map dropReturn).filter fun line => !line.trim.isEmpty
where
  /-- A line without one trailing carriage return. -/
  dropReturn (line : Bytes) : Bytes :=
    if line.getLast? = some Ascii.carriageReturn then line.dropLast else line

/-- Reads extension lines for as long as the keys are those of extensions; the priorities count up
from `count`. -/
def parseExtensions? (count : Nat) :
    List (Bytes × Bytes) → Option (List PointerExtension × List (Bytes × Bytes))
  | [] => some ([], [])
  | (key, value) :: rest =>
    if key.startsWith (ascii "ext-") then
      match parseExtensionKey? key, parseOid? value with
      | some (priority, name), some oid =>
        if priority = count then
          (parseExtensions? (count + 1) rest).map fun (more, after) =>
            (⟨priority, name, oid⟩ :: more, after)
        else none
      | _, _ => none
    else some ([], (key, value) :: rest)

/-- Reads the key-value lines of a pointer, in their fixed order. -/
def ofFields? (fields : List (Bytes × Bytes)) : Option Pointer :=
  match fields with
  | (key, version) :: rest =>
    if key = ascii "version" && knownVersions.contains version then
      match parseExtensions? 0 rest with
      | some (extensions, [(oidKey, oidText), (sizeKey, sizeText)]) =>
        match parseOid? oidText, parseSize? sizeText with
        | some oid, some size =>
          if oidKey = ascii "oid" && sizeKey = ascii "size" then some ⟨oid, size, extensions⟩
          else none
        | _, _ => none
      | _ => none
    else none
  | [] => none

/-- Whether a text mentions one of the tools that write pointers; a cheap test before reading. -/
def mentionsTool (text : Bytes) : Bool :=
  text.mentions (ascii "git-lfs") || text.mentions (ascii "hawser") ||
    text.mentions (ascii "git-media")

/-- Reads a pointer, and whether its text is canonical. -/
def decode? (text : Bytes) : Option (Pointer × Bool) :=
  if text.length < maxSize && mentionsTool text then
    match (contentLines text).mapM (Bytes.splitFirst [Ascii.space]) with
    | some fields => (ofFields? fields).map fun pointer => (pointer, pointer.encode == text)
    | none => none
  else none

/-- Reads a pointer in place of the one that the caller holds: whether the text is a pointer, and
what the caller holds then, which a text that is none leaves alone. -/
def decodeInto (held : Pointer × Bool) (text : Bytes) : Bool × Pointer × Bool :=
  match decode? text with
  | some read => (true, read)
  | none => (false, held)

/-- A pointer that can be written and read back. -/
structure WellFormed (pointer : Pointer) : Prop where
  oid : Digest.isText pointer.oid = true
  extensionOids : ∀ ext ∈ pointer.extensions, Digest.isText ext.oid = true
  size : 0 ≤ pointer.size
  count : pointer.extensions.length ≤ maxExtensions
  priorities : pointer.extensions.map (·.priority) =
    (List.range pointer.extensions.length).map Int.ofNat
  names : ∀ ext ∈ pointer.extensions,
    ext.name ≠ [] ∧ Ascii.space ∉ ext.name ∧ Ascii.newline ∉ ext.name

end Pointer

end StoreAudit
