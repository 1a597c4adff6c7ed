import StoreAudit.Proofs.Scan.Trees

/-!
# Tree listings

A tree listing has a record for each entry: its mode, type, object and size, with spaces between
them and before the size, then a tab and the path. Only the first tab and the zero byte at the end
separate, so whatever else stands in a path, the entries that were listed are the ones that are read
(`TreeEntry.ofRecord?_record`). A record of another shape (`TreeEntry.Malformed`) is never skipped
and never taken for an entry: the whole listing is refused (`TreeScan.listTree_reads_back`).
-/

namespace StoreAudit

open Audit

/-- A text that can stand in a column: it is not empty, and nothing in it separates. -/
structure IsColumn (text : Bytes) : Prop where
  nonempty : text ≠ []
  noSpace : Ascii.space ∉ text
  noTab : Ascii.tab ∉ text
  noNul : 0 ∉ text

instance (text : Bytes) : Decidable (IsColumn text) :=
  decidable_of_iff (text ≠ [] ∧ Ascii.space ∉ text ∧ Ascii.tab ∉ text ∧ 0 ∉ text)
    ⟨fun ⟨nonempty, noSpace, noTab, noNul⟩ => ⟨nonempty, noSpace, noTab, noNul⟩,
      fun column => ⟨column.nonempty, column.noSpace, column.noTab, column.noNul⟩⟩

/-- An entry as a tree listing shows it. -/
structure TreeLine where
  mode : Bytes
  type : Bytes
  oid : Bytes
  /-- The size, of an entry that has one. -/
  size : Option Nat
  /-- How many spaces stand before the size, besides the one that separates it. -/
  padding : Nat
  path : Bytes
  columns : ∀ column ∈ [mode, type, oid], IsColumn column := by decide +kernel
  fits : ∀ number ∈ size, number < 2 ^ 63 := by decide +kernel
  pathWhole : 0 ∉ path := by decide +kernel

namespace TreeLine

/-- The size as it is shown. -/
def sizeColumn (line : TreeLine) : Bytes := line.size.elim (ascii "-") Decimal.ofNat

/-- The columns before the path. -/
def head (line : TreeLine) : Bytes :=
  line.mode ++ Ascii.space :: (line.type ++ Ascii.space :: (line.oid ++ Ascii.space ::
    (List.replicate line.padding Ascii.space ++ line.sizeColumn)))

/-- The record of the entry. -/
def record (line : TreeLine) : Bytes := line.head ++ Ascii.tab :: line.path

/-- The record with the zero byte after it. -/
def text (line : TreeLine) : Bytes := line.record ++ [0]

/-- The entry that is shown. -/
def entry (line : TreeLine) : TreeEntry where
  mode := line.mode
  type := line.type
  oid := line.oid
  size := line.size.elim (-1) Int64.ofNat
  path := line.path

private theorem isColumn_ofNat (number : Nat) : IsColumn (Decimal.ofNat number) where
  nonempty := (Decimal.denotes_ofNat number).nonempty
  noSpace member := absurd ((Decimal.denotes_ofNat number).digits _ member) (by decide)
  noTab member := absurd ((Decimal.denotes_ofNat number).digits _ member) (by decide)
  noNul member := absurd ((Decimal.denotes_ofNat number).digits _ member) (by decide)

private theorem isColumn_sizeColumn (line : TreeLine) : IsColumn line.sizeColumn := by
  unfold sizeColumn
  cases line.size with
  | none => exact ⟨by decide, by decide, by decide, by decide⟩
  | some number => exact isColumn_ofNat number

private theorem isColumn_mode (line : TreeLine) : IsColumn line.mode := line.columns _ (by simp)

private theorem isColumn_type (line : TreeLine) : IsColumn line.type := line.columns _ (by simp)

private theorem isColumn_oid (line : TreeLine) : IsColumn line.oid := line.columns _ (by simp)

/-- A byte that no column holds stands nowhere before the path, unless it is the space. -/
theorem notMem_head (line : TreeLine) {byte : UInt8} (noSpace : byte ≠ Ascii.space)
    (absent : ∀ column, IsColumn column → byte ∉ column) : byte ∉ line.head := by
  simp [head, noSpace, absent _ line.isColumn_mode, absent _ line.isColumn_type,
    absent _ line.isColumn_oid, absent _ line.isColumn_sizeColumn, List.mem_replicate]

private theorem tab_notMem_head (line : TreeLine) : Ascii.tab ∉ line.head :=
  line.notMem_head (by decide) fun _ column => column.noTab

private theorem nul_notMem_record (line : TreeLine) : 0 ∉ line.record := by
  have head : 0 ∉ line.head := line.notMem_head (by decide) fun _ column => column.noNul
  have tab : (0 : UInt8) ≠ Ascii.tab := by decide
  simp [record, head, tab, line.pathWhole]

/-- The size is read back, and `-` as no size. -/
theorem toWord?_sizeColumn (line : TreeLine) :
    ((Decimal.toWord? line.sizeColumn).map UInt64.toInt64).getD TreeEntry.noSize =
      line.entry.size := by
  unfold sizeColumn entry
  cases size : line.size with
  | none => rfl
  | some number =>
      have fits : number < 2 ^ 64 := Nat.lt_trans (line.fits number size) (by decide)
      have read : Decimal.toWord? (Decimal.ofNat number) = some (UInt64.ofNat number) := by
        rw [Decimal.toWord?_eq_some_iff, UInt64.toNat_ofNat_of_lt' fits]
        exact Decimal.denotes_ofNat number
      simp [read]

/-- Listed one after the other, the records are what the listing is cut into. -/
theorem split_texts (lines : List TreeLine) :
    Bytes.split 0 (lines.flatMap text) = lines.map record := by
  induction lines with
  | nil => rfl
  | cons line rest ih =>
      rw [List.flatMap_cons, text, List.append_assoc, List.singleton_append,
        Bytes.split_append_cons line.nul_notMem_record, ih, List.map_cons]

end TreeLine

namespace TreeEntry

/-- The texts between the spaces of a text that are not empty. -/
def columns (text : Bytes) : List Bytes :=
  (text.splitOn Ascii.space).filter (!·.isEmpty)

/-- The record is none of an entry. -/
inductive Malformed : Bytes → Prop
  | noTab {record : Bytes} (absent : Ascii.tab ∉ record) : Malformed record
  | notFour {head : Bytes} (first : Ascii.tab ∉ head) (path : Bytes)
      (count : (columns head).length ≠ 4) : Malformed (head ++ Ascii.tab :: path)

private theorem columns_eq (text : Bytes) :
    columns text = (Bytes.split Ascii.space text).filter (!·.isEmpty) :=
  Bytes.filter_splitOn Ascii.space text

private theorem columns_cons_space (text : Bytes) : columns (Ascii.space :: text) = columns text :=
    by
  simp [columns_eq, Bytes.split_cons]

private theorem columns_append_space {column : Bytes} (isColumn : IsColumn column) (rest : Bytes) :
    columns (column ++ Ascii.space :: rest) = column :: columns rest := by
  simp [columns_eq, Bytes.split_append_cons isColumn.noSpace, isColumn.nonempty]

private theorem columns_padded {column : Bytes} (isColumn : IsColumn column) (padding : Nat) :
    columns (List.replicate padding Ascii.space ++ column) = [column] := by
  induction padding with
  | zero =>
      simp [columns_eq, Bytes.split_of_notMem isColumn.nonempty isColumn.noSpace,
        isColumn.nonempty]
  | succ padding ih =>
      rw [List.replicate_succ, List.cons_append, columns_cons_space, ih]

private theorem columns_head (line : TreeLine) :
    columns line.head = [line.mode, line.type, line.oid, line.sizeColumn] := by
  rw [TreeLine.head, columns_append_space line.isColumn_mode,
    columns_append_space line.isColumn_type, columns_append_space line.isColumn_oid,
    columns_padded line.isColumn_sizeColumn]

/-- What is listed is read. -/
theorem ofRecord?_record (line : TreeLine) : ofRecord? line.record = some line.entry := by
  have cut : Bytes.splitFirst [Ascii.tab] line.record = some (line.head, line.path) :=
    Bytes.splitFirst_append_cons line.tab_notMem_head line.path
  have four := columns_head line
  rw [columns_eq] at four
  simp only [ofRecord?, cut, four, line.toWord?_sizeColumn]
  rfl

private theorem malformed_iff {head : Bytes} (first : Ascii.tab ∉ head) (path : Bytes) :
    Malformed (head ++ Ascii.tab :: path) ↔ (columns head).length ≠ 4 := by
  refine ⟨fun malformed => ?_, .notFour first path⟩
  generalize shape : head ++ Ascii.tab :: path = record at malformed
  cases malformed with
  | noTab absent => exact absurd (shape ▸ List.mem_append_right _ List.mem_cons_self) absent
  | @notFour other otherFirst rest count =>
      have cut := Bytes.splitFirst_append_cons first path
      rw [shape, Bytes.splitFirst_append_cons otherFirst] at cut
      obtain ⟨rfl, -⟩ := Prod.mk.inj (Option.some.inj cut)
      exact count

private theorem ofRecord?_eq_none_iff {record : Bytes} : ofRecord? record = none ↔ Malformed record
    := by
  unfold ofRecord?
  cases cut : Bytes.splitFirst [Ascii.tab] record with
  | none =>
      refine iff_of_true rfl (.noTab fun tab => ?_)
      obtain ⟨head, path, rfl, first⟩ := List.eq_append_cons_of_mem tab
      rw [Bytes.splitFirst_append_cons first] at cut
      cases cut
  | some parts =>
      obtain ⟨head, path⟩ := parts
      obtain ⟨rfl, first⟩ := Bytes.splitFirst_eq_some_iff.mp cut
      rw [malformed_iff first, columns_eq]
      dsimp only
      split
      · rename_i four
        simp [four]
      · rename_i other
        refine iff_of_true rfl fun four => ?_
        obtain ⟨mode, type, oid, size, same⟩ := List.length_eq_four.mp four
        exact other mode type oid size same

end TreeEntry

namespace TreeScan

/-- The first malformed record is what a listing is refused for. -/
theorem parseEntries_of_malformed {records : List Bytes} {record : Bytes}
    (member : record ∈ records) (malformed : TreeEntry.Malformed record) :
    ∃ before first after, records = before ++ first :: after ∧
      (∀ other ∈ before, ¬ TreeEntry.Malformed other) ∧ TreeEntry.Malformed first ∧
      parseEntries records = .error (.unexpectedTreeRecord first) := by
  induction records with
  | nil => cases member
  | cons head rest ih =>
      by_cases here : TreeEntry.Malformed head
      · refine ⟨[], head, rest, rfl, nofun, here, ?_⟩
        rw [parseEntries_cons, TreeEntry.ofRecord?_eq_none_iff.mpr here]
      · have later : record ∈ rest :=
          (List.mem_cons.mp member).resolve_left fun same => here (same ▸ malformed)
        obtain ⟨before, first, after, rfl, wellFormed, isFirst, refused⟩ := ih later
        obtain ⟨entry, read⟩ :=
          Option.ne_none_iff_exists'.mp (mt TreeEntry.ofRecord?_eq_none_iff.mp here)
        refine ⟨head :: before, first, after, rfl, List.forall_mem_cons.mpr ⟨here, wellFormed⟩,
          isFirst, ?_⟩
        rw [parseEntries_cons, read, refused]
        rfl

/-- What listing a tree comes to where the command can be started, whether or not the user asks to
stop. -/
theorem listTree_apply (repository : Repository) (commit : Bytes) {session : Session}
    (willing : session.refusal? = none) :
    (listTree repository commit session).1 =
      match parseEntries (repository.recordsOf (arguments commit) 0) with
      | .error failure => .error failure
      | .ok entries =>
        match repository.callFailure? (arguments commit) with
        | none => .ok entries
        | some failure =>
          .error (if session.signal.requested then .interrupted else failure) := by
  have other : Child.lookupMode? ((arguments commit).map Bytes.beforeNul) = none :=
    Child.lookupMode?_eq_none (by decide)
  have begins := RecordListing.start_apply repository 0 other session
  rw [willing] at begins
  obtain ⟨given, after, started, isOf, signal⟩ := begins
  have waited := isOf.hasRun.wait_apply repository after
  rw [listTree, bind_apply_of_ok started, isOf.records]
  cases parseEntries (repository.recordsOf (arguments commit) 0) with
  | error failure => rfl
  | ok entries =>
      change ((given.child.wait >>= fun _ => pure entries : Audit _) after).1 = _
      rw [bind_pure_apply, waited, Repository.callFailure?, signal]
      dsimp only
      cases repository.endFailure? (arguments commit)
        (repository.transcript.call (arguments commit)).errorText
        (repository.transcript.call (arguments commit)).ending with
      | none => rfl
      | some failure => rfl

/-- What listing a tree comes to where the command cannot be started. -/
theorem listTree_of_refusal (repository : Repository) (commit : Bytes) {session : Session}
    {failure : Failure} (refused : session.refusal? = some failure) :
    (listTree repository commit session).1 = .error failure := by
  have other : Child.lookupMode? ((arguments commit).map Bytes.beforeNul) = none :=
    Child.lookupMode?_eq_none (by decide)
  have begins := RecordListing.start_apply repository 0 other session
  rw [refused] at begins
  rw [listTree, bind_apply]
  rcases started : RecordListing.start repository (arguments commit) 0 session with
    ⟨reason | given, after⟩ <;> rw [started] at begins <;> cases begins
  rfl

private theorem parseEntries_records (lines : List TreeLine) :
    parseEntries (lines.map TreeLine.record) = .ok (lines.map TreeLine.entry) := by
  have shaped : ∀ record ∈ lines.map TreeLine.record, TreeEntry.ofRecord? record ≠ none := by
    intro record member
    obtain ⟨line, -, rfl⟩ := List.mem_map.mp member
    rw [TreeEntry.ofRecord?_record]
    exact Option.some_ne_none _
  rw [parseEntries_eq shaped, List.filterMap_map]
  simp [TreeEntry.ofRecord?_record]

private theorem listTree_of_lines (repository : Repository) (commit : Bytes) {session : Session}
    (willing : session.refusal? = none) {lines : List TreeLine}
    (listed : (repository.transcript.call (arguments commit)).output =
      lines.flatMap TreeLine.text) :
    (listTree repository commit session).1 =
      match repository.callFailure? (arguments commit) with
      | none => .ok (lines.map TreeLine.entry)
      | some failure => .error (if session.signal.requested then .interrupted else failure) := by
  have parts : repository.recordsOf (arguments commit) 0 = lines.map TreeLine.record := by
    rw [← TreeLine.split_texts, ← listed]
    rfl
  rw [listTree_apply repository commit willing, parts, parseEntries_records]

private theorem listTree_of_malformed (repository : Repository) (commit : Bytes) {session : Session}
    (willing : session.refusal? = none) {record : Bytes}
    (member : record ∈ repository.recordsOf (arguments commit) 0)
    (malformed : TreeEntry.Malformed record) :
    ∃ before first after,
      repository.recordsOf (arguments commit) 0 = before ++ first :: after ∧
      (∀ other ∈ before, ¬ TreeEntry.Malformed other) ∧ TreeEntry.Malformed first ∧
      (listTree repository commit session).1 = .error (.unexpectedTreeRecord first) := by
  obtain ⟨before, first, after, parts, wellFormed, isFirst, parsed⟩ :=
    parseEntries_of_malformed member malformed
  refine ⟨before, first, after, parts, wellFormed, isFirst, ?_⟩
  rw [listTree_apply repository commit willing, parsed]

/-- The end of a command is never what a scan fails for. -/
theorem exists_malformed_of_scanFailed {repository : Repository} {commit : Bytes}
    {session : Session} (willing : session.refusal? = none) {failure : Failure}
    (failed : (listTree repository commit session).1 = .error failure)
    (kind : failure.kind = .coded .scanFailed) :
    ∃ record ∈ repository.recordsOf (arguments commit) 0, TreeEntry.Malformed record := by
  by_contra none
  have shaped : ∀ record ∈ repository.recordsOf (arguments commit) 0,
      TreeEntry.ofRecord? record ≠ Option.none :=
    fun record member absent =>
      none ⟨record, member, TreeEntry.ofRecord?_eq_none_iff.mp absent⟩
  rw [listTree_apply repository commit willing, parseEntries_eq shaped, Repository.callFailure?,
    Repository.endFailure?] at failed
  by_cases well : (repository.transcript.call (arguments commit)).ending.status = 0
  · simp only [well, if_true] at failed
    cases failed
  · simp only [well, if_false, Except.error.injEq] at failed
    subst failed
    split at kind <;> cases kind

/-- **Tree listings are read back.** If a listing can be started and ends well, the entries that it
lists are the ones that are read, in their order. A listing with malformed records is refused for
the first of them, and no other listing is refused like that. -/
theorem listTree_reads_back (repository : Repository) (commit : Bytes) (session : Session) :
    let records := repository.recordsOf (arguments commit) 0
    let result := (listTree repository commit session).1
    match session.refusal? with
    | some failure => result = .error failure ∧ failure.kind ≠ .coded .scanFailed
    | none =>
      (∀ lines : List TreeLine,
        (repository.transcript.call (arguments commit)).output = lines.flatMap TreeLine.text →
        result =
          match repository.callFailure? (arguments commit) with
          | none => .ok (lines.map TreeLine.entry)
          | some failure =>
            .error (if session.signal.requested then .interrupted else failure)) ∧
      (∀ record ∈ records, TreeEntry.Malformed record →
        ∃ before first after, records = before ++ first :: after ∧
          (∀ other ∈ before, ¬ TreeEntry.Malformed other) ∧ TreeEntry.Malformed first ∧
          result = .error (.unexpectedTreeRecord first)) ∧
      ((∃ failure, result = .error failure ∧ failure.kind = .coded .scanFailed) ↔
        ∃ record ∈ records, TreeEntry.Malformed record) := by
  intro records result
  cases refused : session.refusal? with
  | some failure =>
      obtain ⟨call, errno, rfl⟩ := Spawn.ofStart_of_failure? refused
      exact ⟨listTree_of_refusal repository commit refused, nofun⟩
  | none =>
      refine ⟨fun _ => listTree_of_lines repository commit refused,
        fun _ => listTree_of_malformed repository commit refused, ?_, ?_⟩
      · rintro ⟨failure, failed, kind⟩
        exact exists_malformed_of_scanFailed refused failed kind
      · rintro ⟨record, member, malformed⟩
        obtain ⟨_, first, _, -, -, -, failed⟩ :=
          listTree_of_malformed repository commit refused member malformed
        exact ⟨_, failed, rfl⟩

/-- A path with every separator but the last, a submodule, and a path of nothing but spaces. -/
def sampleListing : List TreeLine :=
  [{ mode := ascii "100644", type := ascii "blob", oid := ascii "a1", size := some 90,
     padding := 5, path := ascii " a\tb\n c " },
    { mode := ascii "160000", type := ascii "commit", oid := ascii "c1", size := none,
      padding := 6, path := ascii "lib" },
    { mode := ascii "100755", type := ascii "blob", oid := ascii "b1",
      size := some (2 ^ 63 - 1), padding := 0, path := ascii "  " }]

/-- Lists the sample for the first commit. For the second, there is a record with a size too many
after it. -/
def sampleListings : Repository where
  directory := ascii "/r"
  transcript :=
    { calls := [
        { arguments := arguments (ascii "c1")
          output := sampleListing.flatMap TreeLine.text },
        { arguments := arguments (ascii "c2")
          output := sampleListing.flatMap TreeLine.text ++
            ascii "100644 blob a1 90 90\ta" ++ [0] }] }

/-- Paths with blanks and line breaks, an entry without a size, and a header with a field too many.
-/
theorem listTree_reads_back_of_odd_paths :
    (listTree sampleListings (ascii "c1") {}).1 =
      .ok [⟨ascii "100644", ascii "blob", ascii "a1", 90, ascii " a\tb\n c "⟩,
        ⟨ascii "160000", ascii "commit", ascii "c1", -1, ascii "lib"⟩,
        ⟨ascii "100755", ascii "blob", ascii "b1", 9223372036854775807, ascii "  "⟩] ∧
    ∃ failure, (listTree sampleListings (ascii "c2") {}).1 = .error failure ∧
      failure.kind = .coded .scanFailed := by
  obtain ⟨listed, -, -⟩ := listTree_reads_back sampleListings (ascii "c1") {}
  obtain ⟨-, -, refused⟩ := listTree_reads_back sampleListings (ascii "c2") {}
  refine ⟨(listed sampleListing (by decide +kernel)).trans (by decide +kernel), refused.mpr ?_⟩
  have malformed : TreeEntry.Malformed (ascii "100644 blob a1 90 90\ta") :=
    .notFour (show Ascii.tab ∉ ascii "100644 blob a1 90 90" by decide +kernel) (ascii "a")
      (by decide +kernel)
  exact ⟨_, by decide +kernel, malformed⟩

end TreeScan

end StoreAudit
