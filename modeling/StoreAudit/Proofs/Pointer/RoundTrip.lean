import StoreAudit.Proofs.Pointer.Grammar

/-!
# Writing pointers and reading them back

A well-formed pointer is written as lines that are its own, and everything that is read is well
formed. So writing can be undone, and the canonical texts are those that are written
(`Pointer.decode?_encode_iff`).
-/

namespace StoreAudit

namespace Bytes

/-- A line that neither trimming nor cutting changes. -/
structure IsSolid (line : Bytes) : Prop where
  whole : Ascii.newline ∉ line
  first : ∃ byte, line.head? = some byte ∧ isBlank byte = false
  last : ∃ byte, line.getLast? = some byte ∧ isBlank byte = false

private theorem IsSolid.ne_nil {line : Bytes} (solid : IsSolid line) : line ≠ [] := by
  rintro rfl
  obtain ⟨byte, impossible, -⟩ := solid.first
  cases impossible

private theorem IsSolid.trim {line : Bytes} (solid : IsSolid line) : line.trim = line := by
  obtain ⟨first, starts, firstKept⟩ := solid.first
  obtain ⟨last, ends, lastKept⟩ := solid.last
  have trimmed : (line ++ []).trim = line :=
    trim_append_blanks starts ends firstKept lastKept nofun
  rwa [List.append_nil] at trimmed

/-- Bytes that are not blank, after a text that starts with one, end a solid line. -/
theorem isSolid_append {start rest : Bytes} {byte : UInt8} (first : start.head? = some byte)
    (kept : isBlank byte = false) (whole : Ascii.newline ∉ start) (nonempty : rest ≠ [])
    (solid : ∀ byte ∈ rest, isBlank byte = false) : IsSolid (start ++ rest) where
  whole member := by
    rcases List.mem_append.mp member with before | after
    · exact whole before
    · exact absurd (solid _ after) (by decide)
  first := by
    refine ⟨byte, ?_, kept⟩
    rw [List.head?_append, first]
    rfl
  last := by
    refine ⟨rest.getLast nonempty, ?_, solid _ (List.getLast_mem nonempty)⟩
    rw [List.getLast?_append, List.getLast?_eq_some_getLast nonempty]
    rfl

/-- Solid lines with a separator after each are what is left of their text. -/
theorem split_trim_ofLines {lines : List Bytes} (nonempty : lines ≠ [])
    (solid : ∀ line ∈ lines, IsSolid line) :
    split Ascii.newline (ofLines lines).trim = lines := by
  obtain ⟨front, line, rfl⟩ := (List.eq_nil_or_concat lines).resolve_left nonempty
  rw [List.concat_eq_append] at solid ⊢
  let text := ofLines front ++ line
  have parts : ofLines (front ++ [line]) = text ++ [Ascii.newline] := by simp [ofLines, text]
  obtain ⟨last, ends, lastKept⟩ := (solid line (by simp)).last
  have textEnds : text.getLast? = some last := by
    rw [List.getLast?_append, ends]
    rfl
  obtain ⟨first, starts, firstKept⟩ : ∃ byte, text.head? = some byte ∧ isBlank byte = false := by
    cases front with
    | nil => exact (solid line (by simp)).first
    | cons head others =>
        obtain ⟨byte, starts, kept⟩ := (solid head (by simp)).first
        exact ⟨byte, by simp [text, ofLines, starts], kept⟩
  have keptLast : text.getLast? ≠ some Ascii.newline := by
    rw [textEnds]
    rintro ⟨⟩
    exact absurd lastKept (by decide)
  have textNonempty : text ≠ [] := by
    intro empty
    rw [empty] at textEnds
    cases textEnds
  have blank : ∀ byte ∈ [Ascii.newline], isBlank byte = true := List.forall_mem_singleton.mpr rfl
  rw [parts, trim_append_blanks starts textEnds firstKept lastKept blank,
    ← split_append_singleton textNonempty keptLast, ← parts]
  exact split_flatMap fun part member => (solid part member).whole

end Bytes

namespace Pointer

open Bytes

/-- The content lines of solid lines are these lines. -/
theorem contentLines_ofLines {lines : List Bytes} (nonempty : lines ≠ [])
    (solid : ∀ line ∈ lines, IsSolid line) : contentLines (ofLines lines) = lines := by
  have unchanged : lines.map contentLines.dropReturn = lines := by
    refine (List.map_congr_left fun line member => ?_).trans (List.map_id lines)
    obtain ⟨last, ends, kept⟩ := (solid line member).last
    unfold contentLines.dropReturn
    rw [if_neg]
    · rfl
    · rw [ends]
      rintro ⟨⟩
      exact absurd kept (by decide)
  rw [contentLines, split_trim_ofLines nonempty solid, unchanged, List.filter_eq_self]
  intro line member
  rw [(solid line member).trim]
  simpa using (solid line member).ne_nil

/-- The line that is written for an extension. -/
def extensionText (ext : PointerExtension) : Bytes :=
  joinField (extensionKey ext, oidValue ext.oid)

/-- The lines that are written for a pointer. -/
def encodeLines (pointer : Pointer) : List Bytes :=
  (ascii "version " ++ currentVersion) :: pointer.extensions.map extensionText ++
    [ascii "oid sha256:" ++ pointer.oid, ascii "size " ++ Decimal.ofInt pointer.size.toInt]

private theorem encode_eq_ofLines (pointer : Pointer) : pointer.encode = ofLines pointer.encodeLines
    := by
  have version : line (ascii "version") currentVersion =
      ascii "version " ++ currentVersion ++ [Ascii.newline] := rfl
  have oid : line (ascii "oid") (oidValue pointer.oid) =
      ascii "oid sha256:" ++ pointer.oid ++ [Ascii.newline] := rfl
  have size (digits : Bytes) :
      line (ascii "size") digits = ascii "size " ++ digits ++ [Ascii.newline] := rfl
  have extensions : pointer.extensions.flatMap
        (fun ext => line (extensionKey ext) (oidValue ext.oid)) =
      (pointer.extensions.map extensionText).flatMap (fun text => text ++ [Ascii.newline]) := by
    rw [List.flatMap_map]
    rfl
  rw [encode, version, oid, size, extensions, ofLines, encodeLines]
  simp

private theorem not_isBlank_of_digit {byte : UInt8} (digit : Bytes.isDigit byte = true) :
    isBlank byte = false := by
  have bounds := Decimal.isDigit_iff.mp digit
  simp only [isBlank, Bool.or_eq_false_iff, beq_eq_false_iff_ne, Bool.and_eq_false_iff,
    decide_eq_false_iff_not, UInt8.le_iff_toNat_le]
  refine ⟨fun same => ?_, .inr ?_⟩
  · rw [same] at bounds
    exact absurd bounds.1 (by decide)
  · change ¬ byte.toNat ≤ 13
    omega

private theorem not_isBlank_of_hex {byte : UInt8} (hex : Hex.isDigit byte = true) :
    isBlank byte = false := by
  simp only [Hex.isDigit, Bool.or_eq_true, Bool.and_eq_true, decide_eq_true_eq,
    UInt8.le_iff_toNat_le] at hex
  simp only [isBlank, Bool.or_eq_false_iff, beq_eq_false_iff_ne, Bool.and_eq_false_iff,
    decide_eq_false_iff_not, UInt8.le_iff_toNat_le]
  have low : (48 : UInt8).toNat = 48 := rfl
  have letter : (97 : UInt8).toNat = 97 := rfl
  have most : (13 : UInt8).toNat = 13 := rfl
  rw [low, letter] at hex
  refine ⟨fun same => ?_, .inr (by omega)⟩
  rw [same] at hex
  exact absurd hex (by decide)

private theorem hex_of_isText {oid : Bytes} (digest : Digest.isText oid = true) :
    oid ≠ [] ∧ ∀ byte ∈ oid, isBlank byte = false := by
  obtain ⟨length, hex⟩ := Bool.and_eq_true_iff.mp digest
  refine ⟨fun empty => ?_, fun byte member => ?_⟩
  · rw [empty] at length
    exact absurd length (by decide)
  · exact not_isBlank_of_hex (List.all_eq_true.mp hex byte member)

private theorem ofInt_denotes {value : Int} (natural : 0 ≤ value) :
    Decimal.Denotes (Decimal.ofInt value) value.toNat := by
  obtain ⟨number, rfl⟩ := Int.eq_ofNat_of_zero_le natural
  exact Decimal.denotes_ofNat number

/-- The extensions of a pointer that can be read back, from a place in the chain on. -/
structure WellFormedFrom (place : Nat) (extensions : List PointerExtension) : Prop where
  oids : ∀ ext ∈ extensions, Digest.isText ext.oid = true
  priorities : extensions.map (·.priority) =
    (List.range' place extensions.length).map Int.ofNat
  names : ∀ ext ∈ extensions,
    ext.name ≠ [] ∧ Ascii.space ∉ ext.name ∧ Ascii.newline ∉ ext.name

private theorem WellFormedFrom.cons_iff {place : Nat} {ext : PointerExtension}
    {extensions : List PointerExtension} :
    WellFormedFrom place (ext :: extensions) ↔
      (Digest.isText ext.oid = true ∧ ext.priority = place ∧ ext.name ≠ [] ∧
        Ascii.space ∉ ext.name ∧ Ascii.newline ∉ ext.name) ∧
      WellFormedFrom (place + 1) extensions := by
  constructor
  · rintro ⟨oids, priorities, names⟩
    obtain ⟨oid, oids⟩ := List.forall_mem_cons.mp oids
    obtain ⟨name, names⟩ := List.forall_mem_cons.mp names
    obtain ⟨priority, priorities⟩ := List.cons.inj priorities
    exact ⟨⟨oid, priority, name⟩, oids, priorities, names⟩
  · rintro ⟨⟨oid, priority, name⟩, oids, priorities, names⟩
    refine ⟨List.forall_mem_cons.mpr ⟨oid, oids⟩, ?_, List.forall_mem_cons.mpr ⟨name, names⟩⟩
    rw [List.map_cons, priorities, priority]
    rfl

private theorem wellFormed_iff {pointer : Pointer} :
    WellFormed pointer ↔ Digest.isText pointer.oid = true ∧ 0 ≤ pointer.size ∧
      pointer.extensions.length ≤ maxExtensions ∧ WellFormedFrom 0 pointer.extensions := by
  constructor
  · rintro ⟨oid, oids, size, count, priorities, names⟩
    rw [List.range_eq_range'] at priorities
    exact ⟨oid, size, count, oids, priorities, names⟩
  · rintro ⟨oid, size, count, oids, priorities, names⟩
    rw [← List.range_eq_range'] at priorities
    exact ⟨oid, oids, size, count, priorities, names⟩

/-- What is written for extensions that can be read back are solid lines of these extensions. -/
theorem WellFormedFrom.lines {place : Nat} {extensions : List PointerExtension}
    (wellFormed : WellFormedFrom place extensions) :
    ExtensionLines place (extensions.map extensionText) extensions ∧
      ∀ line ∈ extensions.map extensionText, IsSolid line := by
  induction extensions generalizing place with
  | nil => exact ⟨.nil, nofun⟩
  | cons ext rest ih =>
      obtain ⟨⟨digest, priority, nonempty, noSpace, noNewline⟩, others⟩ :=
        WellFormedFrom.cons_iff.mp wellFormed
      obtain ⟨linesRest, solidRest⟩ := ih others
      obtain ⟨number, name, oid⟩ := ext
      obtain rfl : number = place := priority
      have denotes : Decimal.Denotes (Decimal.ofInt place) place := Decimal.denotes_ofNat place
      have digits := denotes.digits
      have text : extensionText ⟨place, name, oid⟩ =
          ascii "ext-" ++ Decimal.ofInt place ++ Ascii.dash :: name ++ ascii " sha256:" ++ oid := by
        have start : ascii " sha256:" = Ascii.space :: ascii "sha256:" := rfl
        have value : oidValue oid = ascii "sha256:" ++ oid := rfl
        simp [extensionText, joinField, extensionKey, start, value]
      refine ⟨.cons ?_ linesRest, List.forall_mem_cons.mpr ⟨?_, solidRest⟩⟩
      · rw [text]
        exact .mk denotes nonempty noSpace digest
      · rw [text]
        obtain ⟨someOid, solidOid⟩ := hex_of_isText digest
        refine isSolid_append rfl rfl ?_ someOid solidOid
        have noDigit : Ascii.newline ∉ Decimal.ofInt place := fun member =>
          absurd (digits _ member) (by decide)
        have start : Ascii.newline ∉ ascii "ext-" := by decide
        have finish : Ascii.newline ∉ ascii " sha256:" := by decide
        have dash : Ascii.newline ≠ Ascii.dash := by decide
        simp only [List.mem_append, List.mem_cons, not_or]
        exact ⟨⟨⟨start, noDigit⟩, dash, noNewline⟩, finish⟩

/-- A well-formed pointer is written as lines of its own. -/
theorem WellFormed.lines {pointer : Pointer} (wellFormed : WellFormed pointer) :
    Lines (contentLines pointer.encode) pointer := by
  obtain ⟨digest, natural, count, extensions⟩ := wellFormed_iff.mp wellFormed
  obtain ⟨extensionLines, extensionsSolid⟩ := extensions.lines
  have size : 0 ≤ pointer.size.toInt := Int64.le_iff_toInt_le.mp natural
  have denotes := ofInt_denotes size
  have same : pointer.size.toInt = pointer.size.toInt.toNat := (Int.toNat_of_nonneg size).symm
  have small : pointer.size.toInt.toNat ≤ 2 ^ 63 - 1 := by
    have := pointer.size.toInt_lt
    omega
  have solid : ∀ line ∈ pointer.encodeLines, IsSolid line := by
    obtain ⟨someOid, solidOid⟩ := hex_of_isText digest
    have noBlank : currentVersion.any isBlank = false := by decide
    have solidVersion : ∀ byte ∈ currentVersion, isBlank byte = false := by
      simpa only [List.any_eq_false, Bool.not_eq_true] using noBlank
    simp only [encodeLines, List.forall_mem_append, List.forall_mem_cons]
    refine ⟨⟨?_, extensionsSolid⟩, ?_, ?_, nofun⟩
    · exact isSolid_append rfl rfl (by decide) (by decide) solidVersion
    · exact isSolid_append rfl rfl (by decide) someOid solidOid
    · exact isSolid_append rfl rfl (by decide) denotes.nonempty fun byte member =>
        not_isBlank_of_digit (denotes.digits byte member)
  rw [encode_eq_ofLines, contentLines_ofLines (by simp [encodeLines]) solid]
  exact .mk List.mem_cons_self extensionLines count digest denotes small same

private theorem ExtensionLines.wellFormedFrom {place : Nat} {lines : List Bytes}
    {extensions : List PointerExtension} (given : ExtensionLines place lines extensions)
    (whole : ∀ line ∈ lines, Ascii.newline ∉ line) : WellFormedFrom place extensions := by
  induction given with
  | nil => exact ⟨nofun, rfl, nofun⟩
  | cons first _ ih =>
      obtain ⟨wholeFirst, wholeRest⟩ := List.forall_mem_cons.mp whole
      cases first with
      | mk denotes nonempty noSpace digest =>
          refine WellFormedFrom.cons_iff.mpr
            ⟨⟨digest, rfl, nonempty, noSpace, fun member => ?_⟩, ih wholeRest⟩
          apply wholeFirst
          simp [member]

/-- Lines without a line separator in them are only those of well-formed pointers. -/
theorem Lines.wellFormed {lines : List Bytes} {pointer : Pointer} (given : Lines lines pointer)
    (whole : ∀ line ∈ lines, Ascii.newline ∉ line) : WellFormed pointer := by
  cases given with
  | mk known extensionLines count digest denotes small same =>
      refine wellFormed_iff.mpr ⟨digest, ?_, count, extensionLines.wellFormedFrom ?_⟩
      · rw [Int64.le_iff_toInt_le, same]
        exact Int.natCast_nonneg _
      · intro line member
        exact whole line (by simp [member])

/-- Only pointers that are well formed are read. -/
theorem wellFormed_of_decode? {text : Bytes} {pointer : Pointer} {canonical : Bool}
    (read : decode? text = some (pointer, canonical)) : WellFormed pointer :=
  (decode?_eq_some_iff.mp read).2.1.wellFormed fun _ member => (infix_of_mem_contentLines member).2

/-- **Writing pointers and reading them back.** A pointer is read back from what is written for it,
as canonical, exactly if it is well formed and its text short enough. Different well-formed pointers
are written differently, whatever the size of their texts, only well-formed ones are read, and the
canonical texts are the short ones that are written for them. -/
theorem decode?_encode_iff :
    (∀ pointer : Pointer, decode? pointer.encode = some (pointer, true) ↔
      WellFormed pointer ∧ pointer.encode.length < maxSize) ∧
    (∀ first second : Pointer, WellFormed first → WellFormed second →
      first.encode = second.encode → first = second) ∧
    (∀ text pointer canonical, decode? text = some (pointer, canonical) → WellFormed pointer) ∧
    ∀ text, (∃ pointer, decode? text = some (pointer, true)) ↔
      ∃ pointer, WellFormed pointer ∧ text = pointer.encode ∧ text.length < maxSize := by
  have back (pointer : Pointer) : decode? pointer.encode = some (pointer, true) ↔
      WellFormed pointer ∧ pointer.encode.length < maxSize := by
    constructor
    · intro read
      exact ⟨wellFormed_of_decode? read, (decode?_eq_some_iff.mp read).1⟩
    · rintro ⟨wellFormed, short⟩
      exact decode?_eq_some_iff.mpr ⟨short, wellFormed.lines, (beq_self_eq_true _).symm⟩
  refine ⟨back, fun first second one other same => ?_,
    fun text pointer canonical => wellFormed_of_decode?, fun text => ⟨?_, ?_⟩⟩
  · exact one.lines.unique (same ▸ other.lines)
  · rintro ⟨pointer, read⟩
    obtain ⟨short, -, canonical⟩ := decode?_eq_some_iff.mp read
    exact ⟨pointer, wellFormed_of_decode? read, (eq_of_beq canonical.symm).symm, short⟩
  · rintro ⟨pointer, wellFormed, rfl, short⟩
    exact ⟨pointer, (back pointer).mpr ⟨wellFormed, short⟩⟩

/-- A pointer with an extension whose name holds a dash, a tab and a zero byte. -/
theorem decode?_encode_of_odd_name :
    let oid := List.replicate 64 Ascii.zero
    let pointer : Pointer := ⟨oid, 9223372036854775807, [⟨0, [Ascii.dash, Ascii.tab, 0], oid⟩]⟩
    WellFormed pointer ∧ pointer.encode.length < maxSize ∧
      decode? pointer.encode = some (pointer, true) := by
  intro oid pointer
  have wellFormed : WellFormed pointer :=
    ⟨by decide, by decide, by decide, by decide, by decide, by decide⟩
  have short : pointer.encode.length < maxSize := by decide +kernel
  exact ⟨wellFormed, short, (decode?_encode_iff.1 pointer).mpr ⟨wellFormed, short⟩⟩

end Pointer

end StoreAudit
