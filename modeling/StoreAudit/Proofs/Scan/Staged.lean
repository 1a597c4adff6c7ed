import StoreAudit.Proofs.Scan.Blobs

/-!
# What a scan of staged entries delivers

A staged entry is listed as a header and a path, each with a zero byte after it. Whatever stands in
the paths, the two are never taken for one another (`StagedEntry.split_texts`), so the scan delivers
the pointers among the entries, in order, until the listing ends or breaks off
(`StagedScan.delivers_entries`).
-/

namespace StoreAudit

open Audit

namespace StagedHeader

/-- The fields of a header in their order. -/
def fields (header : StagedHeader) : List Bytes :=
  [header.sourceMode, header.mode, header.sourceOid, header.oid, header.status]

/-- The header as it is listed. -/
def text (header : StagedHeader) : Bytes :=
  Ascii.colon :: Bytes.join Ascii.space header.fields

/-- The fields are words. -/
def Words (header : StagedHeader) : Prop :=
  ∀ field ∈ header.fields, Ascii.space ∉ field ∧ 0 ∉ field

instance (header : StagedHeader) : Decidable header.Words :=
  inferInstanceAs (Decidable (∀ field ∈ header.fields, Ascii.space ∉ field ∧ 0 ∉ field))

/-- The record is no header: it has not five fields, or does not start with a colon. -/
def Malformed (record : Bytes) : Prop :=
  (record.splitOn Ascii.space).length ≠ 5 ∨ ¬ [Ascii.colon] <+: record

/-- The record is a header with a blank after it, which makes a sixth field. -/
def Padded (record : Bytes) : Prop :=
  ∃ header, ¬ Malformed header ∧ record = header ++ [Ascii.space]

/-- The columns of a listed header, of which the first starts with the colon. -/
def columns (header : StagedHeader) : List Bytes :=
  [Ascii.colon :: header.sourceMode, header.mode, header.sourceOid, header.oid, header.status]

private theorem text_eq_join (header : StagedHeader) :
    header.text = Bytes.join Ascii.space header.columns := rfl

private theorem Words.columns {header : StagedHeader} (words : header.Words) :
    ∀ column ∈ header.columns, Ascii.space ∉ column := by
  have apart : Ascii.space ≠ Ascii.colon := by decide
  simp only [Words, fields, List.forall_mem_cons] at words
  simp [StagedHeader.columns, words, apart]

private theorem ofRecord?_of_columns {record : Bytes} {header : StagedHeader}
    (parts : Bytes.split Ascii.space record = header.columns) :
    ofRecord? record = some header := by
  simp [ofRecord?, parts, columns, Bytes.startsWith]

/-- A header is read back if there is a status, or a blank after the header. -/
theorem ofRecord?_text {header : StagedHeader} (words : header.Words) {padded : Bool}
    (status : padded = true ∨ header.status ≠ []) :
    ofRecord? (header.text ++ if padded then [Ascii.space] else []) = some header := by
  apply ofRecord?_of_columns
  cases padded with
  | false =>
      have last : header.columns.getLast? ≠ some [] := by simpa [columns] using status
      rw [if_neg Bool.false_ne_true, List.append_nil, text_eq_join]
      exact Bytes.split_join words.columns last
  | true =>
      have listed : header.text ++ [Ascii.space] =
          header.columns.flatMap fun column => column ++ [Ascii.space] := by
        simp [text, fields, columns, Bytes.join, List.intercalate, List.intersperse]
      rw [if_pos rfl, listed]
      exact Bytes.split_flatMap words.columns

private theorem zero_notMem_text {header : StagedHeader} (words : header.Words) : 0 ∉ header.text :=
    by
  simp only [Words, fields, List.forall_mem_cons] at words
  have colon : (0 : UInt8) ≠ Ascii.colon := by decide
  have space : (0 : UInt8) ≠ Ascii.space := by decide
  simp [text, fields, Bytes.join, List.intercalate, List.intersperse, words, colon, space]

/-- The first field starts as the record does. -/
theorem startsWith_of_split {record first : Bytes} {others : List Bytes}
    (parts : Bytes.split Ascii.space record = first :: others) :
    [Ascii.colon] <+: first ↔ [Ascii.colon] <+: record := by
  cases record with
  | nil => cases parts
  | cons byte rest =>
      rw [Bytes.split_cons] at parts
      split at parts
      · rename_i cut
        obtain ⟨rfl, -⟩ := List.cons.inj parts
        have apart : Ascii.colon ≠ Ascii.space := by decide
        simp [cut, List.cons_prefix_cons, apart]
      · split at parts <;> obtain ⟨rfl, -⟩ := List.cons.inj parts <;>
          simp [List.cons_prefix_cons]

/-- What is read are records of five parts that start with a colon. -/
theorem ofRecord?_eq_none_iff {record : Bytes} : ofRecord? record = none ↔
    (Bytes.split Ascii.space record).length ≠ 5 ∨ ¬ [Ascii.colon] <+: record := by
  unfold ofRecord?
  split
  · rename_i sourceMode mode sourceOid oid status parts
    rw [parts, ← startsWith_of_split parts, ← Bytes.startsWith_iff]
    simp
  · rename_i other
    refine iff_of_true rfl (.inl fun five => ?_)
    rcases parts : Bytes.split Ascii.space record with
      _ | ⟨sourceMode, _ | ⟨mode, _ | ⟨sourceOid, _ | ⟨oid, _ | ⟨status, _ | ⟨more, rest⟩⟩⟩⟩⟩⟩
    case cons.cons.cons.cons.cons.nil => exact other _ _ _ _ _ parts
    all_goals simp [parts] at five

/-- A record that is no header, nor one with a blank after it, is refused. -/
theorem ofRecord?_eq_none_of_malformed {record : Bytes} (malformed : Malformed record)
    (unpadded : ¬ Padded record) : ofRecord? record = none := by
  rw [ofRecord?_eq_none_iff]
  refine or_iff_not_imp_right.mpr fun colon five => ?_
  have count := malformed.resolve_right colon
  rw [not_not] at colon
  rcases List.eq_nil_or_concat record with rfl | ⟨header, last, rfl⟩
  · cases five
  rw [List.concat_eq_append] at *
  by_cases ends : last = Ascii.space
  · subst ends
    rw [Bytes.split_append_eq_splitOn] at five
    have starts : [Ascii.colon] <+: header := by
      cases header with
      | nil => cases five
      | cons byte rest => simpa [List.cons_prefix_cons] using colon
    exact unpadded ⟨header, not_or.mpr ⟨not_not.mpr five, not_not.mpr starts⟩, rfl⟩
  · rw [Bytes.splitOn_eq_append, if_neg (by simpa using ends), List.append_nil] at count
    exact count five

/-- A header without a status ends with a blank, and is refused. -/
theorem ofRecord?_eq_none_of_blank {record : Bytes} (wellFormed : ¬ Malformed record)
    (blank : [Ascii.space] <:+ record) : ofRecord? record = none := by
  have five := not_not.mp (not_or.mp wellFormed).1
  obtain ⟨front, rfl⟩ := blank
  rw [Bytes.splitOn_eq_append, if_pos (by simp), List.length_append] at five
  rw [ofRecord?_eq_none_iff]
  exact .inl fun parts => by simp [parts] at five

private theorem Words.not_malformed {header : StagedHeader} (words : header.Words) :
    ¬ Malformed header.text := by
  have parts : header.text.splitOn Ascii.space = header.columns := by
    rw [text_eq_join, Bytes.join]
    exact List.splitOn_intercalate Ascii.space words.columns (by simp [StagedHeader.columns])
  rw [Malformed, parts]
  simp [StagedHeader.columns, text]

/-- The blank makes a sixth field. -/
theorem Padded.malformed {record : Bytes} (padded : Padded record) : Malformed record := by
  obtain ⟨header, wellFormed, rfl⟩ := padded
  have five := not_not.mp (not_or.mp wellFormed).1
  refine .inl ?_
  rw [Bytes.splitOn_eq_append, if_pos (by simp), Bytes.split_append_eq_splitOn,
    List.length_append, five]
  decide

private theorem Padded.last {record : Bytes} (padded : Padded record) :
    record.getLast? = some Ascii.space := by
  obtain ⟨header, -, rfl⟩ := padded
  exact List.getLast?_concat

/-- A header with a blank after it has the fields of one. -/
theorem Padded.exists_text {record : Bytes} (padded : Padded record) (whole : 0 ∉ record) :
    ∃ header : StagedHeader, header.Words ∧ record = header.text ++ [Ascii.space] := by
  obtain ⟨text, wellFormed, rfl⟩ := padded
  obtain ⟨five, colon⟩ := not_or.mp wellFormed
  rw [not_not] at five colon
  have joined : Bytes.join Ascii.space (text.splitOn Ascii.space) = text :=
    List.intercalate_splitOn Ascii.space
  have parts := Bytes.split_append_eq_splitOn Ascii.space text
  have words : ∀ part ∈ text.splitOn Ascii.space, Ascii.space ∉ part ∧ 0 ∉ part := by
    intro part member
    rw [← parts] at member
    obtain ⟨inside, absent⟩ := Bytes.infix_of_mem_split member
    exact ⟨absent, fun zero => whole (inside.subset zero)⟩
  obtain ⟨first, mode, sourceOid, oid, status, shape⟩ :
      ∃ first mode sourceOid oid status,
        text.splitOn Ascii.space = [first, mode, sourceOid, oid, status] := by
    match text.splitOn Ascii.space, five with
    | [first, mode, sourceOid, oid, status], _ => exact ⟨first, mode, sourceOid, oid, status, rfl⟩
  rw [shape] at parts words joined
  obtain ⟨sourceMode, rfl⟩ : ∃ sourceMode, first = Ascii.colon :: sourceMode := by
    obtain ⟨sourceMode, rfl⟩ := (startsWith_of_split parts).mpr
      (colon.trans (List.prefix_append text [Ascii.space]))
    exact ⟨sourceMode, rfl⟩
  refine ⟨⟨sourceMode, mode, sourceOid, oid, status⟩, ?_, by rw [text_eq_join, columns, joined]⟩
  simp only [List.forall_mem_cons] at words
  simp only [List.mem_cons, not_or] at words
  simp [Words, fields, words]

end StagedHeader

/-- An entry of a listing of what is staged. Its header has five fields that are not empty, unless
it is padded: then a blank stands after the header, and the last field can be empty. -/
structure StagedEntry where
  header : StagedHeader
  path : Bytes
  padded : Bool := false
  words : header.Words := by decide +kernel
  status : padded = true ∨ header.status ≠ [] := by decide +kernel
  whole : 0 ∉ path := by decide +kernel

namespace StagedEntry

/-- The header of an entry as it is listed. -/
def headerText (entry : StagedEntry) : Bytes :=
  entry.header.text ++ if entry.padded then [Ascii.space] else []

/-- The two records of an entry. -/
def records (entry : StagedEntry) : List Bytes := [entry.headerText, entry.path]

/-- The entry as it is listed. -/
def text (entry : StagedEntry) : Bytes := entry.headerText ++ 0 :: (entry.path ++ [0])

private theorem ofRecord?_headerText (entry : StagedEntry) :
    StagedHeader.ofRecord? entry.headerText = some entry.header :=
  StagedHeader.ofRecord?_text entry.words entry.status

private theorem zero_notMem_headerText (entry : StagedEntry) : 0 ∉ entry.headerText := by
  have zero := StagedHeader.zero_notMem_text entry.words
  have space : (0 : UInt8) ≠ Ascii.space := by decide
  cases shape : entry.padded <;> simp [headerText, shape, zero, space]

/-- The padded entries are those that are listed with a padded header. -/
theorem padded_iff {record path : Bytes} (wholeRecord : 0 ∉ record) (wholePath : 0 ∉ path) :
    StagedHeader.Padded record ↔
      ∃ entry : StagedEntry, entry.padded = true ∧ entry.records = [record, path] := by
  refine ⟨fun padded => ?_, ?_⟩
  · obtain ⟨header, words, rfl⟩ := padded.exists_text wholeRecord
    exact ⟨⟨header, path, true, words, .inl rfl, wholePath⟩, rfl, rfl⟩
  · rintro ⟨entry, padded, shape⟩
    obtain ⟨rfl, -⟩ := List.cons.inj shape
    rw [headerText, if_pos padded]
    exact ⟨_, entry.words.not_malformed, rfl⟩

private theorem split_texts (entries : List StagedEntry) (rest : Bytes) :
    Bytes.split 0 (entries.flatMap text ++ rest) =
      entries.flatMap records ++ Bytes.split 0 rest := by
  induction entries with
  | nil => rfl
  | cons entry others ih =>
      have parts : (entry :: others).flatMap text ++ rest =
          entry.headerText ++ 0 :: (entry.path ++ 0 :: (others.flatMap text ++ rest)) := by
        simp [text]
      rw [parts, Bytes.split_append_cons entry.zero_notMem_headerText,
        Bytes.split_append_cons entry.whole, ih]
      rfl

end StagedEntry

namespace StagedScan

variable {filter : PathFilter} {base : ObjectBase} {repository : Repository}

/-- Whether the object of an entry is looked up. -/
def counts (filter : PathFilter) (entry : StagedEntry) : Bool :=
  entry.header.hasObject && filter.allows entry.path

/-- The item that an entry gives, if it counts and its object is a pointer. -/
def item? (base : ObjectBase) (filter : PathFilter) (entry : StagedEntry) : Option ScanItem :=
  if counts filter entry then base.item? entry.header.oid entry.path else none

private theorem counts_iff {entry : StagedEntry} : counts filter entry = true ↔
    (∃ byte ∈ entry.header.oid, byte ≠ Ascii.zero) ∧ entry.header.status ≠ ascii "D" ∧
      entry.header.mode ≠ StagedHeader.submoduleMode ∧ filter.allows entry.path = true := by
  simp [counts, StagedHeader.hasObject, and_assoc]

private theorem item?_eq_some_iff {entry : StagedEntry} {item : ScanItem} :
    item? base filter entry = some item ↔ counts filter entry = true ∧
      ∃ object pointer canonical, base.find? entry.header.oid = some object ∧
        object.type = ascii "blob" ∧ 0 < object.content.length ∧
        object.content.length < Pointer.maxSize ∧
        Pointer.decode? object.content = some (pointer, canonical) ∧
        item = .pointer ⟨entry.path, entry.header.oid, pointer.oid, pointer.size, canonical⟩ := by
  unfold item?
  cases counts filter entry with
  | false => simp
  | true => simp only [if_true, true_and, ObjectBase.item?_eq_some_iff]

/-- Git has the objects of all entries that count, and answers to their names as the base says. -/
def Answered (repository : Repository) (base : ObjectBase) (filter : PathFilter)
    (entries : List StagedEntry) : Prop :=
  ∀ entry ∈ entries, counts filter entry = true → base.find? entry.header.oid ≠ none ∧
    repository.transcript.lookup .contents entry.header.oid =
      base.reply .contents entry.header.oid

/-- The failure after all entries: how the commands ended. -/
def ending (repository : Repository) (commit : Bytes) : Option Failure :=
  (repository.callFailure? (arguments commit)).or (repository.lookupFailure? .contents)

/-- A scan under way whose listing ends with a failure or without. -/
structure Ready (scan : StagedScan) (repository : Repository) (filter : PathFilter)
    (listed : Option Failure) : Prop where
  sameFilter : scan.filter = filter
  listing : Ends scan.listing.child.wait listed
  contents : scan.contents.InStep repository .contents

namespace Ready

variable {scan : StagedScan} {listed : Option Failure}

private theorem close_ends (ready : scan.Ready repository filter listed) :
    Ends scan.close (listed.or (repository.lookupFailure? .contents)) :=
  ready.listing.bind ready.contents.close_ends

/-- An object that git has is looked up. -/
theorem lookUp (ready : scan.Ready repository filter listed) {oid : Bytes} (path : Bytes)
    (found : base.find? oid ≠ none)
    (answer : repository.transcript.lookup .contents oid = base.reply .contents oid) :
    ∃ later, scan.lookUp oid path = pure (base.pointer? oid path, later) ∧
      later.Ready repository filter listed := by
  obtain ⟨object, stored⟩ := Option.ne_none_iff_exists'.mp found
  obtain ⟨contents, content, still⟩ := ready.contents.get stored answer
  refine ⟨{ scan with contents }, ?_, ⟨ready.sameFilter, ready.listing, still⟩⟩
  rw [← ObjectBase.pointer?_of_header stored .contents FoundObject.fairFor_mayBePointer,
    StagedScan.lookUp, content]
  rfl

end Ready

/-- A scan delivers the pointers among the entries, and then what follows them in the listing. -/
theorem delivers_entries {entries : List StagedEntry}
    (answered : Answered repository base filter entries) {listed failure : Option Failure}
    {rest : List Bytes} {items : List ScanItem}
    (after : ∀ scan : StagedScan, scan.Ready repository filter listed →
      Delivers next failure items (scan.advance rest))
    {scan : StagedScan} (ready : scan.Ready repository filter listed) :
    Delivers next failure (entries.filterMap (item? base filter) ++ items)
      (scan.advance (entries.flatMap StagedEntry.records ++ rest)) := by
  induction entries generalizing scan with
  | nil => exact after scan ready
  | cons entry others ih =>
      obtain ⟨answeredEntry, answeredOthers⟩ := List.forall_mem_cons.mp answered
      have records : (entry :: others).flatMap StagedEntry.records ++ rest =
          entry.headerText :: entry.path :: (others.flatMap StagedEntry.records ++ rest) := rfl
      rw [records, advance]
      apply Delivers.bind succeeds_checkInterrupt
      intro _ _
      rw [entry.ofRecord?_headerText, ready.sameFilter]
      change Delivers next failure _ (if counts filter entry then _ else _)
      cases does : counts filter entry with
      | false =>
          rw [List.filterMap_cons_none (by rw [item?, does]; rfl)]
          exact ih answeredOthers ready
      | true =>
          obtain ⟨found, answer⟩ := answeredEntry does
          obtain ⟨later, looked, still⟩ := ready.lookUp entry.path found answer
          simp only [if_true, looked, pure_bind]
          cases isPointer : base.pointer? entry.header.oid entry.path with
          | none =>
              rw [List.filterMap_cons_none (by rw [item?, does, ObjectBase.item?, isPointer]; rfl)]
              exact ih answeredOthers still
          | some pointer =>
              rw [List.filterMap_cons_some (by rw [item?, does, ObjectBase.item?, isPointer]; rfl)]
              apply Delivers.item
              exact ih answeredOthers ⟨still.sameFilter, still.listing, still.contents⟩

/-- Where the system refuses nothing, the scan starts with all that is staged. -/
theorem succeeds_start (repository : Repository) (commit : Bytes) (filter : PathFilter) :
    Succeeds (StagedScan.start repository commit filter) fun scan =>
      scan.Ready repository filter (repository.callFailure? (arguments commit)) ∧
        scan.listing.records = repository.recordsOf (arguments commit) 0 := by
  have other : Child.lookupMode? ((arguments commit).map Bytes.beforeNul) = none :=
    Child.lookupMode?_eq_none (by decide)
  refine .bind (RecordListing.succeeds_start _ other) fun listing started => ?_
  refine .bind (Lookup.InStep.succeeds_start repository .contents) fun contents contentsReady => ?_
  exact succeeds_pure ⟨⟨rfl, started.ends, contentsReady⟩, started.records⟩

/-- What git lists as staged on top of a commit. -/
def output (repository : Repository) (commit : Bytes) : Bytes :=
  (repository.transcript.call (arguments commit)).output

variable {commit : Bytes} {entries : List StagedEntry}

private theorem holds_entries {tail : Bytes}
    (listed : output repository commit = entries.flatMap StagedEntry.text ++ tail)
    (answered : Answered repository base filter entries) {failure : Option Failure}
    (after : ∀ scan : StagedScan,
      scan.Ready repository filter (repository.callFailure? (arguments commit)) →
        Delivers next failure [] (scan.advance (Bytes.split 0 tail))) :
    Feed.Holds [.staged repository commit filter] (entries.filterMap (item? base filter))
      failure := by
  apply Feed.holds_of_scan Section.stagedScan rfl (fun _ => rfl) (fun _ => rfl)
  apply Delivers.bind (succeeds_start repository commit filter)
  rintro scan ⟨ready, records⟩
  have split : repository.recordsOf (arguments commit) 0 =
      entries.flatMap StagedEntry.records ++ Bytes.split 0 tail := by
    rw [← StagedEntry.split_texts, ← listed]
    rfl
  rw [StagedScan.next, records, split, ← List.append_nil (entries.filterMap _)]
  exact delivers_entries answered after ready

/-- A listing that ends after its entries. -/
theorem holds_whole (listed : output repository commit = entries.flatMap StagedEntry.text)
    (answered : Answered repository base filter entries) :
    Feed.Holds [.staged repository commit filter] (entries.filterMap (item? base filter))
      (ending repository commit) := by
  rw [← List.append_nil (entries.flatMap StagedEntry.text)] at listed
  apply holds_entries listed answered
  intro scan ready
  rw [Bytes.split_nil, advance]
  apply Delivers.bind succeeds_checkInterrupt
  intro _ _
  exact .ended ready.close_ends

/-- **The pointers among what is staged.** An entry counts unless it ends up without an object, is a
submodule or is left out by the filter. One pointer is delivered for each entry that counts and is
one, in the order of the listing, and then the scan ends as its commands do. A record that is no
header, where one should stand before a path, makes the scan fail after the items of the entries
before it, unless it is a header with a blank after it: that one slips through, and is taken for the
header of an entry. A header without a status, or without a path, makes the scan fail too. A source
delivers what history does, and then, if what is staged counts, what is staged on top of the end of
the range. -/
theorem holds_staged_pointers (answered : Answered repository base filter entries) :
    (∀ entry item, item? base filter entry = some item ↔
      ((∃ byte ∈ entry.header.oid, byte ≠ Ascii.zero) ∧ entry.header.status ≠ ascii "D" ∧
        entry.header.mode ≠ ascii "160000" ∧ filter.allows entry.path = true) ∧
      ∃ object pointer canonical, base.find? entry.header.oid = some object ∧
        object.type = ascii "blob" ∧ 0 < object.content.length ∧
        object.content.length < Pointer.maxSize ∧
        Pointer.decode? object.content = some (pointer, canonical) ∧
        item = .pointer ⟨entry.path, entry.header.oid, pointer.oid, pointer.size, canonical⟩) ∧
    (output repository commit = entries.flatMap StagedEntry.text →
      Feed.Holds [.staged repository commit filter] (entries.filterMap (item? base filter))
        (ending repository commit)) ∧
    (∀ record rest, 0 ∉ record → rest ≠ [] →
      output repository commit = entries.flatMap StagedEntry.text ++ (record ++ 0 :: rest) →
      StagedHeader.Malformed record ∧ ¬ StagedHeader.Padded record ∨
        ¬ StagedHeader.Malformed record ∧ [Ascii.space] <:+ record →
      Feed.Holds [.staged repository commit filter] (entries.filterMap (item? base filter))
          (some (.unexpectedIndexHeader record)) ∧
        (Failure.unexpectedIndexHeader record).kind = .coded .scanFailed) ∧
    (∀ record path, 0 ∉ record → 0 ∉ path → (StagedHeader.Padded record ↔
      StagedHeader.Malformed record ∧
        ∃ entry : StagedEntry, entry.padded = true ∧ entry.records = [record, path])) ∧
    (∀ record trailer, 0 ∉ record → (trailer = [] ∧ record ≠ [] ∨ trailer = [0]) →
      output repository commit = entries.flatMap StagedEntry.text ++ (record ++ trailer) →
      Feed.Holds [.staged repository commit filter] (entries.filterMap (item? base filter))
          (some .truncatedIndex) ∧
        Failure.truncatedIndex.kind = .coded .scanFailed) ∧
    ∀ (range : ScanRange) session, (repository.source range filter).objects.contents session =
      let history := Feed.contents [.history repository range.start range.stop filter] session
      if range.useIndex then
        history.followedBy (Feed.contents [.staged repository range.stop filter])
      else history := by
  refine ⟨fun entry item => ?_, fun listed => ?_,
    fun record rest whole more listed refused => ⟨?_, rfl⟩,
    fun record path wholeRecord wholePath => ?_,
    fun record trailer whole ends listed => ⟨?_, rfl⟩, fun range session => ?_⟩
  · rw [item?_eq_some_iff, counts_iff]
    rfl
  · exact holds_whole listed answered
  · apply holds_entries listed answered
    intro scan _
    obtain ⟨path, others, parts⟩ :=
      List.exists_cons_of_ne_nil (mt Bytes.split_eq_nil_iff.mp more)
    have unread : StagedHeader.ofRecord? record = none :=
      refused.elim (fun broken => StagedHeader.ofRecord?_eq_none_of_malformed broken.1 broken.2)
        fun bare => StagedHeader.ofRecord?_eq_none_of_blank bare.1 bare.2
    rw [Bytes.split_append_cons whole, parts, advance, unread]
    apply Delivers.bind succeeds_checkInterrupt
    intro _ _
    exact .failed (fails_throw _)
  · exact ⟨fun padded =>
      ⟨padded.malformed, (StagedEntry.padded_iff wholeRecord wholePath).mp padded⟩,
      fun ⟨_, listed⟩ => (StagedEntry.padded_iff wholeRecord wholePath).mpr listed⟩
  · apply holds_entries listed answered
    intro scan _
    have alone : Bytes.split 0 (record ++ trailer) = [record] := by
      rcases ends with ⟨rfl, nonempty⟩ | rfl
      · rw [List.append_nil, Bytes.split_of_notMem nonempty whole]
      · rw [Bytes.split_append_cons whole, Bytes.split_nil]
    rw [alone, advance]
    apply Delivers.bind succeeds_checkInterrupt
    intro _ _
    exact .failed (fails_throw _)
  · cases index : range.useIndex with
    | false => simp only [Repository.source, index, Bool.false_eq_true, if_false]
    | true =>
        simp only [Repository.source, index, if_true]
        exact Feed.contents_append [.history repository range.start range.stop filter] _ session

def sampleObjects : List (Bytes × StoredObject) := [(ascii "a1", .sample)]

def sampleBase : ObjectBase := .ofList sampleObjects (by decide +kernel)

/-- A pointer whose path looks like a header, and a removed file. -/
def sampleEntries : List StagedEntry :=
  [{ header := ⟨ascii "000000", ascii "100644", ascii "0000", ascii "a1", ascii "A"⟩
     path := ascii ":100644 100644 b1\nb2 M" },
    { header := ⟨ascii "100644", ascii "000000", ascii "b1", ascii "0000", ascii "D"⟩
      path := ascii "b.bin" }]

/-- A record that is no header, and a path. -/
def sampleTail : Bytes := ascii "c.bin" ++ 0 :: (ascii "d.bin" ++ [0])

def sampleRepository : Repository where
  directory := []
  transcript :=
    { calls := [{ arguments := arguments (ascii "c1")
                  output := sampleEntries.flatMap StagedEntry.text ++ sampleTail }]
      objects := sampleObjects.map StoredObject.entry }

/-- A path that looks like a header, and then a header that is none. -/
theorem holds_staged_pointers_of_broken_listing :
    Feed.Holds [.staged sampleRepository (ascii "c1") {}]
      [.sample (ascii ":100644 100644 b1\nb2 M")]
      (some (.unexpectedIndexHeader (ascii "c.bin"))) := by
  have found : ∀ entry ∈ sampleEntries, counts {} entry = true →
      sampleBase.find? entry.header.oid ≠ none := by decide +kernel
  have answered : Answered sampleRepository sampleBase {} sampleEntries :=
    fun entry member does =>
      ⟨found entry member does, ObjectBase.lookup_ofList rfl _ .contents entry.header.oid⟩
  have listed : output sampleRepository (ascii "c1") =
      sampleEntries.flatMap StagedEntry.text ++ sampleTail := by
    decide +kernel
  have malformed : StagedHeader.Malformed (ascii "c.bin") := .inr (by decide +kernel)
  have unpadded : ¬ StagedHeader.Padded (ascii "c.bin") := fun padded =>
    absurd padded.last (by decide +kernel)
  have items : sampleEntries.filterMap (item? sampleBase {}) =
      [.sample (ascii ":100644 100644 b1\nb2 M")] := by
    decide +kernel
  have holds := (holds_staged_pointers answered).2.2.1 (ascii "c.bin") (ascii "d.bin" ++ [0])
    (by decide +kernel) (by decide +kernel) listed (.inl ⟨malformed, unpadded⟩)
  rw [items] at holds
  exact holds.1

/-- One pointer, listed with a blank after its header. -/
def paddedEntry : StagedEntry where
  header := ⟨ascii "000000", ascii "100644", ascii "0000", ascii "a1", ascii "A"⟩
  path := ascii "p.bin"
  padded := true

/-- The listing of that entry alone. -/
def paddedRepository : Repository where
  directory := []
  transcript :=
    { calls := [{ arguments := arguments (ascii "c1"), output := paddedEntry.text }]
      objects := sampleObjects.map StoredObject.entry }

/-- A header of six fields, the last of them empty, gives a pointer, and the scan does not fail. -/
theorem padded_header_accepted :
    output paddedRepository (ascii "c1") =
      ascii ":000000 100644 0000 a1 A " ++ 0 :: (ascii "p.bin" ++ [0]) ∧
    StagedHeader.Malformed (ascii ":000000 100644 0000 a1 A ") ∧
    Feed.Holds [.staged paddedRepository (ascii "c1") {}] [.sample (ascii "p.bin")] none := by
  refine ⟨by decide +kernel, .inl (by decide +kernel), ?_⟩
  have found : ∀ entry ∈ [paddedEntry], counts {} entry = true →
      sampleBase.find? entry.header.oid ≠ none := by decide +kernel
  have answered : Answered paddedRepository sampleBase {} [paddedEntry] :=
    fun entry member does =>
      ⟨found entry member does, ObjectBase.lookup_ofList rfl _ .contents entry.header.oid⟩
  have listed : output paddedRepository (ascii "c1") = [paddedEntry].flatMap StagedEntry.text := by
    decide +kernel
  have items : [paddedEntry].filterMap (item? sampleBase {}) = [.sample (ascii "p.bin")] := by
    decide +kernel
  have holds := holds_whole listed answered
  rw [items] at holds
  exact holds

end StagedScan

end StoreAudit
