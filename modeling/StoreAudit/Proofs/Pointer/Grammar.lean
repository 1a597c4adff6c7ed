import StoreAudit.Pointer.Basic
import StoreAudit.Proofs.Text.Decimal
import StoreAudit.Proofs.Text.Split

/-!
# The grammar of pointers

The lines of a pointer, said by what they consist of and not by how they are read. Reading accepts
exactly the texts whose content lines are those of a pointer (`Pointer.decodeInto_iff`), and a
pointer with given lines is the only one (`Pointer.Lines.unique`).
-/

namespace StoreAudit.Pointer

/-- The line of the extension at a place in the chain. -/
inductive ExtensionLine (place : Nat) : Bytes → PointerExtension → Prop
  | mk {digits name oid : Bytes} : Decimal.Denotes digits place → name ≠ [] →
      Ascii.space ∉ name → Digest.isText oid = true →
      ExtensionLine place
        (ascii "ext-" ++ digits ++ Ascii.dash :: name ++ ascii " sha256:" ++ oid) ⟨place, name, oid⟩

/-- The lines of extensions, the first of which stands at a place in the chain. -/
inductive ExtensionLines : Nat → List Bytes → List PointerExtension → Prop
  | nil {place : Nat} : ExtensionLines place [] []
  | cons {place : Nat} {line : Bytes} {lines : List Bytes} {ext : PointerExtension}
      {extensions : List PointerExtension} : ExtensionLine place line ext →
      ExtensionLines (place + 1) lines extensions →
      ExtensionLines place (line :: lines) (ext :: extensions)

/-- The lines of a pointer: its version, its extensions in order, its object and its size. -/
inductive Lines : List Bytes → Pointer → Prop
  | mk {version oid digits : Bytes} {lines : List Bytes} {extensions : List PointerExtension}
      {number : Nat} {size : Int64} : version ∈ knownVersions →
      ExtensionLines 0 lines extensions → extensions.length ≤ maxExtensions →
      Digest.isText oid = true → Decimal.Denotes digits number → number ≤ 2 ^ 63 - 1 →
      size.toInt = number →
      Lines
        ((ascii "version " ++ version) :: lines ++ [ascii "oid sha256:" ++ oid,
          ascii "size " ++ digits])
        ⟨oid, size, extensions⟩

private theorem parseOid?_eq_some_iff {value oid : Bytes} :
    parseOid? value = some oid ↔ value = ascii "sha256:" ++ oid ∧ Digest.isText oid = true := by
  have whole : Ascii.colon ∉ oidType := by decide
  have start (digits : Bytes) : ascii "sha256:" ++ digits = oidType ++ Ascii.colon :: digits := rfl
  unfold parseOid?
  rw [start]
  constructor
  · intro parsed
    split at parsed
    · rename_i type digits cut
      split at parsed
      · rename_i valid
        obtain ⟨rfl, digest⟩ := Bool.and_eq_true_iff.mp valid |>.imp_left of_decide_eq_true
        cases parsed
        exact ⟨(Bytes.splitFirst_eq_some_iff.mp cut).1, digest⟩
      · cases parsed
    · cases parsed
  · rintro ⟨rfl, digest⟩
    rw [Bytes.splitFirst_eq_some_iff.mpr ⟨rfl, whole⟩]
    simp [digest]

private theorem dash_notMem_digits {digits : Bytes}
    (valid : ∀ byte ∈ digits, Bytes.isDigit byte = true) : Ascii.dash ∉ digits :=
  fun member => absurd (valid _ member) (by decide)

private theorem space_notMem_digits {digits : Bytes}
    (valid : ∀ byte ∈ digits, Bytes.isDigit byte = true) : Ascii.space ∉ digits :=
  fun member => absurd (valid _ member) (by decide)

private theorem parseExtensionKey?_eq_some_iff {key name : Bytes} {place : Nat} :
    parseExtensionKey? key = some (place, name) ↔
      ∃ digits, key = ascii "ext-" ++ digits ++ Ascii.dash :: name ∧
        Decimal.Denotes digits place ∧ name ≠ [] ∧ place < maxExtensions := by
  unfold parseExtensionKey?
  constructor
  · intro parsed
    split at parsed
    · rename_i starts
      obtain ⟨rest, rfl⟩ := Bytes.startsWith_iff.mp starts
      rw [List.drop_left' (by rfl)] at parsed
      split at parsed
      · rename_i digits tail cut
        split at parsed
        · rename_i priority read
          split at parsed
          · rename_i valid
            cases parsed
            obtain ⟨nonempty, small⟩ := Bool.and_eq_true_iff.mp valid
            refine ⟨digits, ?_, Decimal.toWord?_eq_some_iff.mp read, by simpa using nonempty,
              of_decide_eq_true small⟩
            rw [(Bytes.splitFirst_eq_some_iff.mp cut).1, List.append_assoc]
          · cases parsed
        · cases parsed
      · cases parsed
    · cases parsed
  · rintro ⟨digits, rfl, denotes, nonempty, small⟩
    have starts : (ascii "ext-" ++ digits ++ Ascii.dash :: name).startsWith (ascii "ext-") = true :=
      Bytes.startsWith_iff.mpr ⟨_, (List.append_assoc _ _ _).symm⟩
    have cut : Bytes.splitFirst [Ascii.dash]
        ((ascii "ext-" ++ digits ++ Ascii.dash :: name).drop 4) = some (digits, name) := by
      rw [List.append_assoc, List.drop_left' (by rfl)]
      exact Bytes.splitFirst_eq_some_iff.mpr ⟨rfl, dash_notMem_digits denotes.digits⟩
    have ten : maxExtensions = 10 := rfl
    have fits : place < 2 ^ 64 := by omega
    have value : (UInt64.ofNat place).toNat = place := UInt64.toNat_ofNat_of_lt' fits
    have read : Decimal.toWord? digits = some (UInt64.ofNat place) :=
      Decimal.toWord?_eq_some_iff.mpr (value.symm ▸ denotes)
    rw [if_pos starts, cut]
    simp only [read, value]
    simp [nonempty, small]

private theorem parseSize?_eq_some_iff {value : Bytes} {size : Int64} :
    parseSize? value = some size ↔ ∃ number : Nat,
      Decimal.Denotes value number ∧ number ≤ 2 ^ 63 - 1 ∧ size.toInt = number := by
  have signed {word : UInt64} (small : word.toNat ≤ 2 ^ 63 - 1) :
      word.toInt64.toInt = word.toNat := by
    change word.toBitVec.toInt = _
    rw [BitVec.toInt_eq_toNat_of_lt]
    · rfl
    · change 2 * word.toNat < 2 ^ 64
      omega
  unfold parseSize?
  constructor
  · intro parsed
    split at parsed
    · rename_i word read
      split at parsed
      · rename_i small
        cases parsed
        have bound : word.toNat ≤ 2 ^ 63 - 1 := Nat.le_pred_of_lt small
        exact ⟨word.toNat, Decimal.toWord?_eq_some_iff.mp read, bound, signed bound⟩
      · cases parsed
    · cases parsed
  · rintro ⟨number, denotes, small, same⟩
    have value_toNat : (UInt64.ofNat number).toNat = number :=
      UInt64.toNat_ofNat_of_lt' (Nat.lt_of_le_of_lt small (by decide))
    have read : Decimal.toWord? value = some (UInt64.ofNat number) :=
      Decimal.toWord?_eq_some_iff.mpr (value_toNat.symm ▸ denotes)
    have fits : (UInt64.ofNat number).toNat < Nat.pow 2 63 := by
      rw [value_toNat]
      exact Nat.lt_of_le_of_lt small (by decide)
    simp only [read, fits, if_true, Option.some.injEq]
    apply Int64.toInt_inj.mp
    rw [signed (Nat.le_pred_of_lt fits), value_toNat, same]

/-- The line of a key and a value. -/
def joinField (field : Bytes × Bytes) : Bytes := field.1 ++ Ascii.space :: field.2

private theorem splitFirst_joinField {field : Bytes × Bytes} (single : Ascii.space ∉ field.1) :
    Bytes.splitFirst [Ascii.space] (joinField field) = some field :=
  Bytes.splitFirst_eq_some_iff.mpr ⟨rfl, single⟩

private theorem joinField_injective {first second : Bytes × Bytes} (single : Ascii.space ∉ first.1)
    (alone : Ascii.space ∉ second.1) (same : joinField first = joinField second) :
    first = second := by
  have cut := splitFirst_joinField single
  rw [same, splitFirst_joinField alone] at cut
  exact (Option.some.inj cut).symm

/-- Lines with a space each are those of fields whose keys hold none. -/
theorem mapM_splitFirst_eq_some_iff {lines : List Bytes} {fields : List (Bytes × Bytes)} :
    lines.mapM (Bytes.splitFirst [Ascii.space]) = some fields ↔
      lines = fields.map joinField ∧ ∀ field ∈ fields, Ascii.space ∉ field.1 := by
  induction lines generalizing fields with
  | nil =>
      simp only [List.mapM_nil, Option.pure_def, Option.some.injEq]
      constructor
      · rintro rfl
        exact ⟨rfl, nofun⟩
      · rintro ⟨same, -⟩
        exact (List.map_eq_nil_iff.mp same.symm).symm
  | cons line rest ih =>
      rw [List.mapM_cons]
      simp only [Option.bind_eq_bind, Option.bind_eq_some_iff, Option.pure_def, Option.some.injEq]
      constructor
      · rintro ⟨field, cut, more, cuts, rfl⟩
        obtain ⟨same, single⟩ := Bytes.splitFirst_eq_some_iff.mp cut
        obtain ⟨sameRest, singles⟩ := ih.mp cuts
        exact ⟨by rw [same, sameRest]; rfl, List.forall_mem_cons.mpr ⟨single, singles⟩⟩
      · rintro ⟨same, singles⟩
        cases fields with
        | nil => cases same
        | cons field more =>
            obtain ⟨rfl, sameRest⟩ := List.cons.inj same
            obtain ⟨single, singlesRest⟩ := List.forall_mem_cons.mp singles
            exact ⟨field, splitFirst_joinField single, more, ih.mpr ⟨sameRest, singlesRest⟩, rfl⟩

/-- The field of the line of an extension. -/
theorem ExtensionLine.eq_joinField {place : Nat} {line : Bytes} {ext : PointerExtension}
    (given : ExtensionLine place line ext) :
    ∃ digits, let key := ascii "ext-" ++ digits ++ Ascii.dash :: ext.name
      line = joinField (key, ascii "sha256:" ++ ext.oid) ∧ Ascii.space ∉ key ∧
        Decimal.Denotes digits place ∧ ext.name ≠ [] ∧ Digest.isText ext.oid = true ∧
        ext.priority = place := by
  cases given with
  | @mk digits name oid denotes nonempty alone digest =>
      have start : ascii " sha256:" = Ascii.space :: ascii "sha256:" := rfl
      have noSpace : Ascii.space ∉ ascii "ext-" := by decide
      have dash : Ascii.space ≠ Ascii.dash := by decide
      refine ⟨digits, by simp [joinField, start], ?_, denotes, nonempty, digest, rfl⟩
      simp only [List.mem_append, List.mem_cons, not_or]
      exact ⟨⟨noSpace, space_notMem_digits denotes.digits⟩, dash, alone⟩

private theorem extensionLine_joinField_iff {place : Nat} {key value : Bytes}
    {ext : PointerExtension} (single : Ascii.space ∉ key) (small : place < maxExtensions) :
    ExtensionLine place (joinField (key, value)) ext ↔
      parseExtensionKey? key = some (place, ext.name) ∧ parseOid? value = some ext.oid ∧
        ext.priority = place := by
  rw [parseExtensionKey?_eq_some_iff, parseOid?_eq_some_iff]
  constructor
  · intro line
    obtain ⟨digits, same, noSpace, denotes, nonempty, digest, priority⟩ := line.eq_joinField
    cases joinField_injective single noSpace same
    exact ⟨⟨digits, rfl, denotes, nonempty, small⟩, ⟨rfl, digest⟩, priority⟩
  · obtain ⟨priority, name, oid⟩ := ext
    rintro ⟨⟨digits, rfl, denotes, nonempty, -⟩, ⟨rfl, digest⟩, rfl⟩
    have alone : Ascii.space ∉ name := fun member =>
      single (List.mem_append_right _ (List.mem_cons_of_mem _ member))
    have start : ascii " sha256:" = Ascii.space :: ascii "sha256:" := rfl
    have line := ExtensionLine.mk denotes nonempty alone digest
    simpa [joinField, start] using line

/-- A field whose key is none of an extension is not the line of one. -/
theorem not_extensionLine_of_other {place : Nat} {key value : Bytes} {ext : PointerExtension}
    (single : Ascii.space ∉ key) (other : key.startsWith (ascii "ext-") = false) :
    ¬ ExtensionLine place (joinField (key, value)) ext := by
  intro line
  obtain ⟨digits, same, noSpace, -⟩ := line.eq_joinField
  cases joinField_injective single noSpace same
  rw [List.append_assoc, Bytes.startsWith_iff.mpr (List.prefix_append _ _)] at other
  cases other

/-- Lines of extensions are those of fields. -/
theorem ExtensionLines.exists_fields {place : Nat} {lines : List Bytes}
    {extensions : List PointerExtension} (given : ExtensionLines place lines extensions) :
    ∃ fields : List (Bytes × Bytes),
      lines = fields.map joinField ∧ ∀ field ∈ fields, Ascii.space ∉ field.1 := by
  induction given with
  | nil => exact ⟨[], rfl, nofun⟩
  | cons first _ ih =>
      obtain ⟨fields, rfl, singles⟩ := ih
      obtain ⟨digits, rfl, noSpace, -⟩ := first.eq_joinField
      exact ⟨_ :: fields, rfl, List.forall_mem_cons.mpr ⟨noSpace, singles⟩⟩

/-- A field whose key is that of an extension is read as one, or nothing is read. -/
private theorem parseExtensions?_cons_eq_some_iff {place : Nat} {key value : Bytes}
    {more rest : List (Bytes × Bytes)} {extensions : List PointerExtension}
    (single : Ascii.space ∉ key) (starts : key.startsWith (ascii "ext-") = true) :
    parseExtensions? place ((key, value) :: more) = some (extensions, rest) ↔
      ∃ ext others, extensions = ext :: others ∧ place < maxExtensions ∧
        ExtensionLine place (joinField (key, value)) ext ∧
        parseExtensions? (place + 1) more = some (others, rest) := by
  simp only [parseExtensions?, starts, if_true]
  constructor
  · intro parsed
    split at parsed
    · rename_i priority name oid readKey readOid
      split at parsed
      · rename_i same
        subst same
        obtain ⟨⟨others, after⟩, further, result⟩ := Option.map_eq_some_iff.mp parsed
        cases result
        obtain ⟨-, -, -, -, small⟩ := parseExtensionKey?_eq_some_iff.mp readKey
        exact ⟨_, others, rfl, small,
          (extensionLine_joinField_iff single small).mpr ⟨readKey, readOid, rfl⟩, further⟩
      · cases parsed
    · cases parsed
  · rintro ⟨ext, others, rfl, small, line, further⟩
    obtain ⟨readKey, readOid, priority⟩ := (extensionLine_joinField_iff single small).mp line
    simp only [readKey, readOid, if_true, further, Option.map_some]
    rw [← priority]

/-- Fields are read as extensions up to the first whose key is none of an extension. -/
theorem parseExtensions?_eq_some_iff {place : Nat} {fields rest : List (Bytes × Bytes)}
    {extensions : List PointerExtension} (singles : ∀ field ∈ fields, Ascii.space ∉ field.1) :
    parseExtensions? place fields = some (extensions, rest) ↔
      ∃ taken, fields = taken ++ rest ∧ ExtensionLines place (taken.map joinField) extensions ∧
        extensions.length ≤ maxExtensions - place ∧
        ∀ field ∈ rest.head?, field.1.startsWith (ascii "ext-") = false := by
  induction fields generalizing place extensions with
  | nil =>
      simp only [parseExtensions?, Option.some.injEq, Prod.mk.injEq]
      constructor
      · rintro ⟨rfl, rfl⟩
        exact ⟨[], rfl, .nil, Nat.zero_le _, nofun⟩
      · rintro ⟨taken, parts, lines, -, -⟩
        obtain ⟨rfl, rfl⟩ := List.append_eq_nil_iff.mp parts.symm
        cases lines
        exact ⟨rfl, rfl⟩
  | cons field more ih =>
      obtain ⟨key, value⟩ := field
      obtain ⟨single, singlesRest⟩ := List.forall_mem_cons.mp singles
      cases starts : key.startsWith (ascii "ext-") with
      | true =>
          rw [parseExtensions?_cons_eq_some_iff single starts]
          constructor
          · rintro ⟨ext, others, rfl, small, line, further⟩
            obtain ⟨taken, rfl, lines, count, stops⟩ := (ih singlesRest).mp further
            refine ⟨(key, value) :: taken, rfl, .cons line lines, ?_, stops⟩
            rw [List.length_cons]
            omega
          · rintro ⟨taken, parts, lines, count, stops⟩
            cases taken with
            | nil =>
                rw [List.nil_append] at parts
                rw [← parts] at stops
                have never := stops (key, value) (by simp)
                rw [starts] at never
                cases never
            | cons first others =>
                obtain ⟨rfl, sameRest⟩ := List.cons.inj parts
                cases lines with
                | cons line further =>
                    rw [List.length_cons] at count
                    exact ⟨_, _, rfl, by omega, line,
                      (ih singlesRest).mpr ⟨others, sameRest, further, by omega, stops⟩⟩
      | false =>
          simp only [parseExtensions?, starts, Bool.false_eq_true, if_false, Option.some.injEq,
            Prod.mk.injEq]
          constructor
          · rintro ⟨rfl, rfl⟩
            exact ⟨[], rfl, .nil, Nat.zero_le _, by simpa using starts⟩
          · rintro ⟨taken, parts, lines, -, -⟩
            cases taken with
            | nil =>
                cases lines
                exact ⟨rfl, parts⟩
            | cons first others =>
                obtain ⟨rfl, -⟩ := List.cons.inj parts
                cases lines with
                | cons line further => exact absurd line (not_extensionLine_of_other single starts)

/-- Reads a pointer from its lines. -/
def ofLines? (lines : List Bytes) : Option Pointer :=
  (lines.mapM (Bytes.splitFirst [Ascii.space])).bind ofFields?

private theorem ofFields?_eq_some {fields : List (Bytes × Bytes)} {pointer : Pointer}
    (read : ofFields? fields = some pointer) :
    ∃ version rest oidText sizeText,
      fields = (ascii "version", version) :: rest ∧ version ∈ knownVersions ∧
        parseExtensions? 0 rest = some (pointer.extensions,
          [(ascii "oid", oidText), (ascii "size", sizeText)]) ∧
        parseOid? oidText = some pointer.oid ∧ parseSize? sizeText = some pointer.size := by
  unfold ofFields? at read
  split at read
  · rename_i key version rest
    split at read
    · rename_i known
      obtain ⟨sameKey, knownVersion⟩ := Bool.and_eq_true_iff.mp known
      split at read
      · rename_i extensions oidKey oidText sizeKey sizeText parsed
        split at read
        · rename_i oid size readOid readSize
          split at read
          · rename_i keys
            obtain ⟨sameOid, sameSize⟩ := Bool.and_eq_true_iff.mp keys
            obtain rfl := of_decide_eq_true sameKey
            obtain rfl := of_decide_eq_true sameOid
            obtain rfl := of_decide_eq_true sameSize
            cases read
            exact ⟨version, rest, oidText, sizeText, rfl, List.contains_iff_mem.mp knownVersion,
              parsed, readOid, readSize⟩
          · cases read
        · cases read
      · cases read
    · cases read
  · cases read

/-- Exactly the lines of a pointer are read. -/
theorem ofLines?_eq_some_iff {lines : List Bytes} {pointer : Pointer} :
    ofLines? lines = some pointer ↔ Lines lines pointer := by
  rw [ofLines?, Option.bind_eq_some_iff]
  constructor
  · rintro ⟨fields, cut, read⟩
    obtain ⟨rfl, singles⟩ := mapM_splitFirst_eq_some_iff.mp cut
    obtain ⟨version, rest, oidText, sizeText, rfl, known, parsed, readOid, readSize⟩ :=
      ofFields?_eq_some read
    obtain ⟨-, singlesRest⟩ := List.forall_mem_cons.mp singles
    obtain ⟨taken, rfl, extensionLines, count, -⟩ :=
      (parseExtensions?_eq_some_iff singlesRest).mp parsed
    obtain ⟨sameOid, digest⟩ := parseOid?_eq_some_iff.mp readOid
    obtain ⟨number, denotes, small, size⟩ := parseSize?_eq_some_iff.mp readSize
    have whole := Lines.mk known extensionLines count digest denotes small size
    have versionLine : joinField (ascii "version", version) = ascii "version " ++ version := rfl
    have oidLine : joinField (ascii "oid", oidText) = ascii "oid sha256:" ++ pointer.oid := by
      rw [sameOid]
      rfl
    have sizeLine : joinField (ascii "size", sizeText) = ascii "size " ++ sizeText := rfl
    simp only [List.map_cons, List.map_append, List.map_nil, versionLine, oidLine, sizeLine]
    exact whole
  · intro given
    cases given with
    | @mk version oid digits lines extensions number size known extensionLines count digest denotes
        small same =>
        obtain ⟨taken, rfl, singles⟩ := extensionLines.exists_fields
        let last := [(ascii "oid", ascii "sha256:" ++ oid), (ascii "size", digits)]
        have singlesLast : ∀ field ∈ last, Ascii.space ∉ field.1 := by
          simp only [last, List.forall_mem_cons]
          exact ⟨by decide, by decide, nofun⟩
        have singlesRest : ∀ field ∈ taken ++ last, Ascii.space ∉ field.1 :=
          List.forall_mem_append.mpr ⟨singles, singlesLast⟩
        have parsed : parseExtensions? 0 (taken ++ last) = some (extensions, last) := by
          refine (parseExtensions?_eq_some_iff singlesRest).mpr
            ⟨taken, rfl, extensionLines, count, ?_⟩
          rintro field ⟨⟩
          rfl
        have readOid : parseOid? (ascii "sha256:" ++ oid) = some oid :=
          parseOid?_eq_some_iff.mpr ⟨rfl, digest⟩
        have readSize : parseSize? digits = some size :=
          parseSize?_eq_some_iff.mpr ⟨number, denotes, small, same⟩
        have single : Ascii.space ∉ ascii "version" := by decide
        refine ⟨(ascii "version", version) :: (taken ++ last), ?_, ?_⟩
        · refine mapM_splitFirst_eq_some_iff.mpr
            ⟨?_, List.forall_mem_cons.mpr ⟨single, singlesRest⟩⟩
          simp only [List.map_cons, List.map_append, List.map_nil, last]
          rfl
        · simp only [ofFields?, parsed, last, readOid, readSize]
          simp [known]

/-- Lines are those of at most one pointer. -/
theorem Lines.unique {lines : List Bytes} {first second : Pointer} (one : Lines lines first)
    (other : Lines lines second) : first = second := by
  have read := ofLines?_eq_some_iff.mpr one
  rw [ofLines?_eq_some_iff.mpr other] at read
  exact (Option.some.inj read).symm

/-- A content line is a stretch of the text. -/
theorem infix_of_mem_contentLines {text line : Bytes} (member : line ∈ contentLines text) :
    line <:+: text ∧ Ascii.newline ∉ line := by
  obtain ⟨part, inSplit, rfl⟩ := List.mem_map.mp (List.mem_filter.mp member).1
  obtain ⟨stretch, whole⟩ := Bytes.infix_of_mem_split inSplit
  have shorter : contentLines.dropReturn part <+: part := by
    unfold contentLines.dropReturn
    split
    · exact List.dropLast_prefix part
    · exact List.prefix_refl part
  exact ⟨shorter.isInfix.trans (stretch.trans (Bytes.trim_infix text)),
    fun newline => whole (shorter.subset newline)⟩

/-- Every text with the lines of a pointer mentions one of the tools, in its version. -/
theorem mentionsTool_of_lines {text : Bytes} {pointer : Pointer}
    (lines : Lines (contentLines text) pointer) : mentionsTool text = true := by
  obtain ⟨version, known, member⟩ : ∃ version ∈ knownVersions,
      ascii "version " ++ version ∈ contentLines text := by
    generalize contentLines text = content at lines
    cases lines with
    | mk known => exact ⟨_, known, by simp⟩
  have mentions (tool : Bytes) (named : (ascii "version " ++ version).mentions tool = true) :
      text.mentions tool = true :=
    Bytes.mentions_iff.mpr
      ((Bytes.mentions_iff.mp named).trans (infix_of_mem_contentLines member).1)
  simp only [knownVersions, List.mem_cons, List.not_mem_nil, or_false] at known
  unfold mentionsTool
  rcases known with rfl | rfl | rfl
  · rw [mentions (ascii "git-lfs") (by decide)]
    rfl
  · rw [mentions (ascii "hawser") (by decide), Bool.or_true]
    rfl
  · rw [mentions (ascii "git-media") (by decide), Bool.or_true]

/-- The test before reading never changes what comes of it. -/
theorem decode?_eq (text : Bytes) :
    decode? text =
      if text.length < maxSize then
        (ofLines? (contentLines text)).map fun pointer => (pointer, pointer.encode == text)
      else none := by
  have tested : decode? text =
      if text.length < maxSize && mentionsTool text then
        (ofLines? (contentLines text)).map fun pointer => (pointer, pointer.encode == text)
      else none := by
    unfold decode? ofLines?
    cases (contentLines text).mapM (Bytes.splitFirst [Ascii.space]) <;> rfl
  rw [tested]
  by_cases short : text.length < maxSize
  · cases mentioned : mentionsTool text with
    | true => simp [short]
    | false =>
        have nothing : ofLines? (contentLines text) = none := by
          cases found : ofLines? (contentLines text) with
          | none => rfl
          | some pointer =>
              rw [mentionsTool_of_lines (ofLines?_eq_some_iff.mp found)] at mentioned
              cases mentioned
        simp [nothing]
  · simp [short]

/-- A blob is read as a pointer exactly if it is short enough and its lines are those of the
pointer. -/
theorem decode?_eq_some_iff {text : Bytes} {pointer : Pointer} {canonical : Bool} :
    decode? text = some (pointer, canonical) ↔
      text.length < maxSize ∧ Lines (contentLines text) pointer ∧
        canonical = (pointer.encode == text) := by
  rw [decode?_eq]
  split
  · rename_i short
    simp only [short, true_and, Option.map_eq_some_iff, ofLines?_eq_some_iff, Prod.mk.injEq]
    constructor
    · rintro ⟨other, lines, rfl, rfl⟩
      exact ⟨lines, rfl⟩
    · rintro ⟨lines, rfl⟩
      exact ⟨pointer, lines, rfl, rfl⟩
  · rename_i long
    simp [long]

/-- **Reading accepts exactly its grammar.** A text is read if it is short enough and its content
lines are those of a pointer, which is then the one that is read; otherwise the caller keeps what it
held. The test for a mention of a tool changes nothing of that. -/
theorem decodeInto_iff (held : Pointer × Bool) (text : Bytes) :
    let result := decodeInto held text
    (result.1 = true ↔
      text.length < maxSize ∧ ∃ pointer, Lines (contentLines text) pointer) ∧
    (∀ pointer canonical, result = (true, pointer, canonical) ↔
      text.length < maxSize ∧ Lines (contentLines text) pointer ∧
        canonical = (pointer.encode == text)) ∧
    (result.1 = true ∨ result = (false, held)) ∧
    decode? text =
      (if text.length < maxSize then
        (ofLines? (contentLines text)).map fun pointer => (pointer, pointer.encode == text)
      else none) := by
  intro result
  refine ⟨?_, fun pointer canonical => ?_, ?_, decode?_eq text⟩
  · cases read : decode? text with
    | none =>
        have refused : result = (false, held) := by
          simp only [result, decodeInto, read]
        rw [refused]
        refine ⟨nofun, ?_⟩
        rintro ⟨short, pointer, lines⟩
        rw [decode?_eq_some_iff.mpr ⟨short, lines, rfl⟩] at read
        cases read
    | some found =>
        obtain ⟨pointer, canonical⟩ := found
        have accepted : result = (true, pointer, canonical) := by
          simp only [result, decodeInto, read]
        obtain ⟨short, lines, -⟩ := decode?_eq_some_iff.mp read
        rw [accepted]
        exact ⟨fun _ => ⟨short, pointer, lines⟩, fun _ => rfl⟩
  · rw [← decode?_eq_some_iff]
    cases read : decode? text with
    | none => simp [result, decodeInto, read]
    | some found => simp [result, decodeInto, read]
  · cases read : decode? text with
    | none => exact .inr (by simp only [result, decodeInto, read])
    | some found => exact .inl (by simp only [result, decodeInto, read])

end StoreAudit.Pointer
