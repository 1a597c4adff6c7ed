import Mathlib.Data.List.Nodup
import StoreAudit.Proofs.Scan.Delivery
import StoreAudit.Proofs.Scan.Sightings

/-!
# What a scan of trees delivers

A scan of trees delivers what the first sightings of each place give, in the order of the sightings
(`TreeScan.delivers_advance`). What counts is where a place is seen first, whatever the attribute
files of later trees say about it.
-/

namespace StoreAudit

open Audit

/-- Git lists the tree of a commit, and its list agrees with its answers to names. -/
structure Repository.ListsTree (repository : Repository) (base : ObjectBase) (commit : Bytes) :
    Prop where
  ends : repository.callFailure? (TreeScan.arguments commit) = none
  shaped : ∀ record ∈ repository.recordsOf (TreeScan.arguments commit) 0,
    TreeEntry.ofRecord? record ≠ none
  agrees : ∀ entry ∈ repository.treeEntries commit, entry.Agrees base
  answers : ∀ entry ∈ repository.treeEntries commit, entry.isBlob = true →
    repository.transcript.lookup .contents entry.oid = base.reply .contents entry.oid

instance (repository : Repository) (base : ObjectBase) (commit : Bytes) :
    Decidable (repository.ListsTree base commit) :=
  decidable_of_iff (_ ∧ _ ∧ _ ∧ _)
    ⟨fun lists => ⟨lists.1, lists.2.1, lists.2.2.1, lists.2.2.2⟩,
      fun lists => ⟨lists.ends, lists.shaped, lists.agrees, lists.answers⟩⟩

/-- Git has the attribute files among entries and answers to their names. -/
def Repository.HasAttributeFiles (repository : Repository) (base : ObjectBase)
    (entries : List TreeEntry) : Prop :=
  ∀ entry ∈ entries, entry.isAttributeFile = true →
    ∃ object, base.find? entry.oid = some object ∧
      repository.transcript.lookup .contents entry.oid = base.reply .contents entry.oid

namespace TreeScan

open Sighting Repository

variable {repository : Repository} {base : ObjectBase} {filter : PathFilter} {commit : Bytes}
  {listed : Option Failure} {reads : TreeEntry → Bool}

/-- Records of which each can be parsed are parsed. -/
theorem parseEntries_eq {records : List Bytes}
    (shaped : ∀ record ∈ records, TreeEntry.ofRecord? record ≠ none) :
    parseEntries records = .ok (records.filterMap TreeEntry.ofRecord?) := by
  induction records with
  | nil => rfl
  | cons record rest ih =>
      obtain ⟨shapedRecord, shapedRest⟩ := List.forall_mem_cons.mp shaped
      obtain ⟨entry, read⟩ := Option.ne_none_iff_exists'.mp shapedRecord
      rw [parseEntries_cons, read, ih shapedRest, List.filterMap_cons_some read]
      rfl

private theorem succeeds_listTree (lists : repository.ListsTree base commit) :
    Succeeds (listTree repository commit) (· = repository.treeEntries commit) := by
  have other : Child.lookupMode? ((arguments commit).map Bytes.beforeNul) = none :=
    Child.lookupMode?_eq_none (by decide)
  refine (RecordListing.succeeds_start 0 other).bind fun listing started => ?_
  have parsed : (liftM (parseEntries listing.records) : Audit (List TreeEntry)) =
      pure (repository.treeEntries commit) := by
    rw [started.records, parseEntries_eq lists.shaped]
    rfl
  have waited := started.ends
  rw [lists.ends] at waited
  rw [parsed, pure_bind]
  exact Succeeds.bind waited fun _ _ => succeeds_pure rfl

/-- The attribute files among entries are read as git has them, and the scan stays as it is but for
its look-up. -/
theorem succeeds_readAttributes {scan : TreeScan} {entries : List TreeEntry}
    (inStep : scan.contents.InStep repository .contents)
    (known : repository.HasAttributeFiles base entries) :
    Succeeds (scan.readAttributes entries) fun result =>
      result.1 = base.attributes entries ∧
        ∃ contents, result.2 = { scan with contents } ∧
          contents.InStep repository .contents := by
  refine .foldlM (fun done (result : Attributes × TreeScan) =>
    result.1 = done.foldl base.addAttributes {} ∧
      ∃ contents, result.2 = { scan with contents } ∧ contents.InStep repository .contents)
    ⟨rfl, scan.contents, rfl, inStep⟩ ?_
  rintro done entry ⟨attributes, later⟩ member ⟨same, contents, rfl, inStep⟩
  obtain ⟨listed, isFile⟩ := List.mem_filter.mp member
  obtain ⟨object, stored, answers⟩ := known entry listed isFile
  obtain ⟨further, content, still⟩ := inStep.get stored answers
  simp only [content, pure_bind]
  refine succeeds_pure ⟨?_, further, rfl, still⟩
  rw [List.foldl_append, ← same]
  simp [ObjectBase.addAttributes, ObjectBase.content, stored, StoredObject.seen]

/-- A scan under way, the places it has looked at and the items it has not delivered. -/
structure Ready (scan : TreeScan) (repository : Repository) (filter : PathFilter)
    (listed : Option Failure) (before : List (Bytes × Bytes)) (pending : List ScanItem) :
    Prop where
  sameRepository : scan.repository = repository
  sameFilter : scan.filter = filter
  listing : Ends scan.listing.child.wait listed
  contents : scan.contents.InStep repository .contents
  seen : ∀ place, place ∈ scan.seen ↔ place ∈ before
  pending : scan.pending = pending

namespace Ready

variable {scan : TreeScan} {before : List (Bytes × Bytes)} {pending : List ScanItem}

private theorem close_ends (ready : scan.Ready repository filter listed before pending) :
    Ends scan.close (listed.or (repository.lookupFailure? .contents)) :=
  ready.listing.bind ready.contents.close_ends

private theorem get (ready : scan.Ready repository filter listed before pending)
    (lists : repository.ListsTree base commit) {entry : TreeEntry}
    (shown : entry ∈ repository.treeEntries commit) (isBlob : entry.isBlob = true) :
    ∃ object contents, base.find? entry.oid = some object ∧
      scan.contents.get entry.oid = pure (object.seen .contents, contents) ∧
      { scan with contents }.Ready repository filter listed before pending := by
  obtain ⟨object, stored, -⟩ := (lists.agrees entry shown).file isBlob
  obtain ⟨contents, content, still⟩ := ready.contents.get stored (lists.answers entry shown isBlob)
  exact ⟨object, contents, stored, content, { ready with contents := still }⟩

private theorem succeeds_readAttributes (ready : scan.Ready repository filter listed before pending)
    (lists : repository.ListsTree base commit) :
    Succeeds (scan.readAttributes (repository.treeEntries commit)) fun result =>
      result.1 = base.attributes (repository.treeEntries commit) ∧
        result.2.Ready repository filter listed before pending := by
  have known : repository.HasAttributeFiles base (repository.treeEntries commit) := by
    intro entry shown isFile
    have isBlob : entry.isBlob = true := (Bool.and_eq_true _ _ ▸ isFile).1
    obtain ⟨object, stored, -⟩ := (lists.agrees entry shown).file isBlob
    exact ⟨object, stored, lists.answers entry shown isBlob⟩
  apply (TreeScan.succeeds_readAttributes ready.contents known).mono
  rintro ⟨attributes, later⟩ ⟨same, contents, rfl, still⟩
  exact ⟨same, { ready with contents := still }⟩

private theorem lookUp (ready : scan.Ready repository filter listed before pending)
    (lists : repository.ListsTree base commit) (fair : TreeEntry.FairFor reads)
    {entry : TreeEntry} (shown : entry ∈ repository.treeEntries commit) :
    ∃ later, scan.lookUpIf reads entry = pure (base.pointer? entry.oid entry.path, later) ∧
      later.Ready repository filter listed before pending := by
  have agrees := lists.agrees entry shown
  cases read : reads entry with
  | false =>
      refine ⟨scan, ?_, ready⟩
      rw [lookUpIf, read, agrees.pointer?_of_unread fair read]
      rfl
  | true =>
      obtain ⟨object, contents, stored, content, still⟩ :=
        ready.get lists shown (fair.files entry read)
      refine ⟨_, ?_, still⟩
      rw [lookUpIf, read, if_pos rfl, content, pure_bind, ← agrees.pointer?_eq stored fair, read]
      rfl

/-- An entry adds what its sighting gives, if it is the first of its place. -/
theorem succeeds_examine (ready : scan.Ready repository filter listed before pending)
    (lists : repository.ListsTree base commit) (fair : TreeEntry.FairFor reads)
    {entry : TreeEntry} (shown : entry ∈ repository.treeEntries commit) :
    let found := sightingsOf filter commit [entry]
    Succeeds (examineIf reads (base.attributes (repository.treeEntries commit)) scan entry)
      fun later => later.Ready repository filter listed (before ++ found.map place)
        (pending ++ (firsts before found).filterMap (item? repository base)) := by
  intro found
  have passed : (!scan.filter.allows entry.path || scan.seen.contains (entry.oid, entry.path)) =
      (!filter.allows entry.path || decide ((entry.oid, entry.path) ∈ before)) := by
    simp [ready.sameFilter, ready.seen]
  unfold examineIf
  dsimp only
  rw [passed]
  cases admitted : filter.allows entry.path with
  | false =>
      have none : found = [] := by simp [found, sightingsOf, admitted]
      simp only [Bool.not_false, Bool.true_or, if_true]
      apply succeeds_pure
      simpa [none, firsts] using ready
  | true =>
      have one : found = [⟨commit, entry⟩] := by simp [found, sightingsOf, admitted]
      rw [one]
      by_cases old : (entry.oid, entry.path) ∈ before
      · simp only [old, decide_true, Bool.or_true, if_true]
        refine succeeds_pure { ready with seen := ?_, pending := ?_ }
        · intro other
          rw [ready.seen]
          simp only [List.map_cons, List.map_nil, List.mem_append, List.mem_singleton, place]
          exact ⟨.inl, fun member => member.elim id fun same => same ▸ old⟩
        · simp [firsts, place, old, ready.pending]
      · have marked : { scan with seen := (entry.oid, entry.path) :: scan.seen }.Ready repository
            filter listed (before ++ [(entry.oid, entry.path)]) pending :=
          { ready with seen := by simp [ready.seen, or_comm] }
        obtain ⟨later, looked, still⟩ := marked.lookUp lists fair shown
        simp only [old, decide_false, Bool.not_true, Bool.or_self, Bool.false_eq_true, if_false,
          looked, pure_bind]
        refine succeeds_pure { still with pending := ?_ }
        rw [still.pending, verdict_eq]
        simp only [firsts, place, old, if_false]
        cases shape : item? repository base ⟨commit, entry⟩ <;> simp [shape]

private theorem succeeds_scanCommit (ready : scan.Ready repository filter listed before pending)
    (lists : repository.ListsTree base commit) (fair : TreeEntry.FairFor reads) :
    let found := sightingsOf filter commit (repository.treeEntries commit)
    Succeeds (scan.scanCommitIf reads commit) fun later =>
      later.Ready repository filter listed (before ++ found.map place)
        (pending ++ (firsts before found).filterMap (item? repository base)) := by
  intro found
  refine (Succeeds.quietly fun _ => quiet_log _ _).bind fun _ _ => ?_
  rw [ready.sameRepository]
  refine (succeeds_listTree lists).bind fun entries same => ?_
  subst same
  refine (ready.succeeds_readAttributes lists).bind fun (attributes, read) result => ?_
  obtain ⟨rfl, ready⟩ := result
  -- What was looked at grows by what the entries done so far show.
  refine .foldlM (fun done (later : TreeScan) =>
    later.Ready repository filter listed (before ++ (sightingsOf filter commit done).map place)
      (pending ++ (firsts before (sightingsOf filter commit done)).filterMap
        (item? repository base))) ?_ ?_
  · simpa [sightingsOf, firsts] using ready
  · intro done entry later shown ready
    have examined := ready.succeeds_examine lists fair shown
    have parts : sightingsOf filter commit (done ++ [entry]) =
        sightingsOf filter commit done ++ sightingsOf filter commit [entry] := by
      simp [sightingsOf]
    simpa only [parts, List.map_append, firsts_append, List.filterMap_append,
      List.append_assoc] using examined

end Ready

/-- The items that are still to come, once these places have been looked at. -/
def itemsAfter (repository : Repository) (base : ObjectBase) (filter : PathFilter)
    (before : List (Bytes × Bytes)) (commits : List Bytes) : List ScanItem :=
  (firsts before (repository.sightings filter commits)).filterMap (item? repository base)

variable {before : List (Bytes × Bytes)}

private theorem itemsAfter_cons (before : List (Bytes × Bytes)) (commit : Bytes) (rest : List Bytes)
    : let found := sightingsOf filter commit (repository.treeEntries commit)
    itemsAfter repository base filter before (commit :: rest) =
      (firsts before found).filterMap (item? repository base) ++
        itemsAfter repository base filter (before ++ found.map place) rest := by
  simp [itemsAfter, sightings, firsts_append]

/-- What is pending is delivered before the listing goes on. -/
theorem delivers_next {records : List Bytes} {failure : Option Failure}
    {items pending : List ScanItem}
    (goesOn : ∀ scan : TreeScan, scan.Ready repository filter listed before [] →
      Delivers (nextIf reads) failure items (scan.advanceIf reads records))
    {scan : TreeScan} (ready : scan.Ready repository filter listed before pending)
    (left : scan.listing.records = records) :
    Delivers (nextIf reads) failure (pending ++ items) (nextIf reads scan) := by
  induction pending generalizing scan with
  | nil =>
      rw [nextIf, ready.pending, left]
      exact goesOn scan ready
  | cons item more ih =>
      rw [nextIf, ready.pending]
      apply Delivers.item
      exact ih { ready with pending := rfl } left

/-- A scan delivers what the first sightings of each place give. -/
theorem delivers_advance (fair : TreeEntry.FairFor reads) {records : List Bytes}
    (lists : ∀ record ∈ records, repository.ListsTree base record.trim)
    {scan : TreeScan} (ready : scan.Ready repository filter listed before []) :
    Delivers (nextIf reads) (listed.or (repository.lookupFailure? .contents))
      (itemsAfter repository base filter before (records.map Bytes.trim))
      (scan.advanceIf reads records) := by
  induction records generalizing before scan with
  | nil => exact Delivers.bind succeeds_checkInterrupt fun _ _ => .ended ready.close_ends
  | cons record rest ih =>
      obtain ⟨listsRecord, listsRest⟩ := List.forall_mem_cons.mp lists
      rw [List.map_cons, itemsAfter_cons, advanceIf]
      apply Delivers.bind succeeds_checkInterrupt
      intro _ _
      apply Delivers.bind (ready.succeeds_scanCommit listsRecord fair)
      intro later still
      rw [List.nil_append] at still
      rw [still.pending]
      cases shape : (firsts before (sightingsOf filter record.trim
          (repository.treeEntries record.trim))).filterMap (item? repository base) with
      | nil =>
          rw [shape] at still
          exact ih listsRest still
      | cons item more =>
          apply Delivers.item
          apply delivers_next (fun scan ready => ih listsRest ready)
          · exact { still with pending := rfl }
          · rfl

/-- Where the system refuses nothing, the scan starts with all commits. -/
theorem succeeds_start (repository : Repository) (start stop : Bytes) (filter : PathFilter) :
    Succeeds (TreeScan.start repository start stop filter) fun scan =>
      scan.Ready repository filter (repository.callFailure? (historyArguments false start stop))
          [] [] ∧
        scan.listing.records =
          repository.recordsOf (historyArguments false start stop) Ascii.newline := by
  have other : Child.lookupMode? ((historyArguments false start stop).map Bytes.beforeNul) = none :=
    Child.lookupMode?_eq_none (by decide)
  refine .bind (RecordListing.succeeds_start _ other) fun listing started => ?_
  refine .bind (Lookup.InStep.succeeds_start repository .contents) fun contents contentsReady => ?_
  exact succeeds_pure ⟨⟨rfl, rfl, started.ends, contentsReady, fun _ => Iff.rfl, rfl⟩,
    started.records⟩

/-- All commands that list the trees of a range end well, and their lists agree with what git
answers to names. -/
structure Consistent (repository : Repository) (base : ObjectBase) (start stop : Bytes) : Prop where
  ends : repository.callFailure? (historyArguments false start stop) = none
  lookupEnds : repository.lookupFailure? .contents = none
  lists : ∀ commit ∈ repository.commits start stop, repository.ListsTree base commit

instance (repository : Repository) (base : ObjectBase) (start stop : Bytes) :
    Decidable (Consistent repository base start stop) :=
  decidable_of_iff (_ ∧ _ ∧ _)
    ⟨fun consistent => ⟨consistent.1, consistent.2.1, consistent.2.2⟩,
      fun consistent => ⟨consistent.ends, consistent.lookupEnds, consistent.lists⟩⟩

variable {start stop : Bytes}

/-- Whatever is read besides the files that can be pointers, the scan delivers the same. -/
theorem delivers_firsts (fair : TreeEntry.FairFor reads)
    (consistent : Consistent repository base start stop) :
    Delivers (nextIf reads) none
      (itemsAfter repository base filter [] (repository.commits start stop))
      (TreeScan.start repository start stop filter >>= nextIf reads) := by
  apply Delivers.bind (succeeds_start repository start stop filter)
  rintro scan ⟨ready, records⟩
  have lists : ∀ record ∈ repository.recordsOf (historyArguments false start stop) Ascii.newline,
      repository.ListsTree base record.trim := by
    intro record member
    exact consistent.lists record.trim (List.mem_map_of_mem member)
  have delivers := delivers_advance fair lists ready
  rw [consistent.ends, consistent.lookupEnds] at delivers
  rw [nextIf, ready.pending, records]
  exact delivers

/-- A feed of trees holds the items of the first sightings. -/
theorem holds_firsts (consistent : Consistent repository base start stop) :
    Feed.Holds [.trees repository start stop filter]
      (itemsAfter repository base filter [] (repository.commits start stop)) none := by
  apply Feed.holds_of_scan Section.treeScan rfl (fun _ => rfl) (fun _ => rfl)
  rw [← nextIf_mayBePointer]
  exact delivers_firsts TreeEntry.fairFor_mayBePointer consistent

namespace Consistent

private theorem agrees (consistent : Consistent repository base start stop)
    {sightings : List Sighting}
    (part : sightings.Sublist (repository.sightings filter (repository.commits start stop))) :
    ∀ sighting ∈ sightings, sighting.entry.Agrees base := by
  intro sighting member
  obtain ⟨ofRange, shown, -⟩ := mem_sightings_iff.mp (part.subset member)
  exact (consistent.lists sighting.commit ofRange).agrees sighting.entry shown

private theorem mem_itemsAfter_iff (consistent : Consistent repository base start stop)
    {item : ScanItem} :
    item ∈ itemsAfter repository base filter [] (repository.commits start stop) ↔
      ∃ sighting ∈ firsts [] (repository.sightings filter (repository.commits start stop)),
        sighting.Gives repository base item := by
  have agrees := consistent.agrees
    (firsts_sublist [] (repository.sightings filter (repository.commits start stop)))
  unfold itemsAfter
  rw [List.mem_filterMap]
  constructor
  · rintro ⟨sighting, isFirst, given⟩
    exact ⟨sighting, isFirst, (item?_eq_some_iff (agrees sighting isFirst)).mp given⟩
  · rintro ⟨sighting, isFirst, given⟩
    exact ⟨sighting, isFirst, (item?_eq_some_iff (agrees sighting isFirst)).mpr given⟩

/-- The items are given by some of the first sightings, in their order. -/
theorem exists_found (consistent : Consistent repository base start stop) (filter : PathFilter) :
    ∃ found : List Sighting,
      found.Sublist (firsts [] (repository.sightings filter (repository.commits start stop))) ∧
        List.Forall₂ (Gives repository base) found
          (itemsAfter repository base filter [] (repository.commits start stop)) :=
  exists_sublist_gives repository (consistent.agrees (firsts_sublist _ _))

private theorem nodup_itemsAfter (consistent : Consistent repository base start stop)
    (filter : PathFilter) :
    ((itemsAfter repository base filter [] (repository.commits start stop)).map
      ScanItem.place).Nodup := by
  obtain ⟨found, part, gives⟩ := consistent.exists_found filter
  rw [places_eq gives]
  exact nodup_firsts.sublist (part.map place)

/-- A pointer that a tree shows is among the items. -/
theorem pointer_mem_itemsAfter (consistent : Consistent repository base start stop)
    (ofRange : commit ∈ repository.commits start stop) {entry : TreeEntry}
    (shown : entry ∈ repository.treeEntries commit) (admitted : filter.allows entry.path = true)
    {found : FoundPointer} (isPointer : base.pointer? entry.oid entry.path = some found) :
    .pointer found ∈ itemsAfter repository base filter [] (repository.commits start stop) := by
  have seen : ⟨commit, entry⟩ ∈ repository.sightings filter (repository.commits start stop) :=
    mem_sightings_iff.mpr ⟨ofRange, shown, admitted⟩
  obtain ⟨first, isFirst, same⟩ := exists_first seen
  obtain ⟨sameOid, samePath⟩ := Prod.mk.inj same
  refine (consistent.mem_itemsAfter_iff).mpr ⟨first, isFirst, .pointer ?_⟩
  rw [sameOid, samePath]
  exact isPointer

/-- The pointers that trees deliver are those that they show where the filter admits them. -/
theorem pointer_mem_itemsAfter_iff (consistent : Consistent repository base start stop)
    {found : FoundPointer} :
    .pointer found ∈ itemsAfter repository base filter [] (repository.commits start stop) ↔
      ∃ commit ∈ repository.commits start stop, ∃ entry ∈ repository.treeEntries commit,
        filter.allows entry.path = true ∧ base.pointer? entry.oid entry.path = some found := by
  constructor
  · intro member
    obtain ⟨sighting, isFirst, given⟩ := consistent.mem_itemsAfter_iff.mp member
    obtain ⟨ofRange, shown, admitted⟩ := mem_sightings_iff.mp ((firsts_sublist _ _).subset isFirst)
    cases given with
    | pointer isPointer =>
        exact ⟨sighting.commit, ofRange, sighting.entry, shown, admitted, isPointer⟩
  · rintro ⟨commit, ofRange, entry, shown, admitted, isPointer⟩
    exact consistent.pointer_mem_itemsAfter ofRange shown admitted isPointer

end Consistent

/-- A pointer, a file with other content, and an attribute file. -/
def sampleObjects : List (Bytes × StoredObject) :=
  [(ascii "a1", .sample),
    (ascii "b1", .file (ascii "b1") (ascii "plain text")),
    (ascii "f1", .file (ascii "f1") (ascii "*.bin filter=lfs"))]

def sampleBase : ObjectBase := .ofList sampleObjects (by decide +kernel)

/-- Two commits with the same files, of which only the first has an attribute file and only the
second a submodule; they are listed in the given order. -/
def sampleRepository (order : Bytes) : Repository where
  directory := []
  transcript :=
    { calls :=
        [{ arguments := historyArguments false [] (ascii "tip"), output := order },
          { arguments := arguments (ascii "c1")
            output := ascii "100644 blob f1      16\t.gitattributes" ++ 0 ::
              (ascii "100644 blob a1     126\ta.bin" ++ 0 ::
              (ascii "100644 blob b1      10\tb.bin" ++ [0])) },
          { arguments := arguments (ascii "c2")
            output := ascii "100644 blob a1     126\ta.bin" ++ 0 ::
              (ascii "100644 blob b1      10\tb.bin" ++ 0 ::
              (ascii "160000 commit e1       -\tsub" ++ [0])) }]
      objects := sampleObjects.map StoredObject.entry }

def trackedFirst : Repository := sampleRepository (ascii "c1\nc2\n")

def trackedLast : Repository := sampleRepository (ascii "c2\nc1\n")

private theorem consistent_trackedFirst : Consistent trackedFirst sampleBase [] (ascii "tip") := by
  decide +kernel

/-- **What trees deliver.** Each place is reported at most once. Each pointer that a tree shows
where the filter admits it is reported, with what it reads as. A file is reported as misplaced only
if the attribute files of a tree that shows it say that it should be a pointer, and it is neither
one nor empty. The items follow the commits of the range and, in a commit, the list of its tree:
each is given by the first sighting of its place. -/
theorem holds_each_place_once (consistent : Consistent repository base start stop) :
    ∃ items, Feed.Holds [.trees repository start stop filter] items none ∧
      (items.map ScanItem.place).Nodup ∧
      (∀ commit ∈ repository.commits start stop, ∀ entry ∈ repository.treeEntries commit,
        filter.allows entry.path = true → ∀ object pointer canonical,
        base.find? entry.oid = some object → object.type = ascii "blob" →
        0 < object.content.length → object.content.length < Pointer.maxSize →
        Pointer.decode? object.content = some (pointer, canonical) →
        items.count
          (.pointer ⟨entry.path, entry.oid, pointer.oid, pointer.size, canonical⟩) = 1) ∧
      (∀ path oid, .misplaced path oid ∈ items → ∃ commit ∈ repository.commits start stop,
        (∃ entry ∈ repository.treeEntries commit, entry.path = path ∧ entry.oid = oid) ∧
          repository.Tracks base commit path ∧ ¬ base.IsProper oid) ∧
      ∃ found : List Sighting,
        found.Sublist (repository.sightings filter (repository.commits start stop)) ∧
        (∀ sighting ∈ found, (repository.sightings filter (repository.commits start stop)).find?
          (fun other => other.place = sighting.place) = some sighting) ∧
        List.Forall₂ (Gives repository base) found items := by
  obtain ⟨found, part, gives⟩ := consistent.exists_found filter
  have ofRange := firsts_sublist [] (repository.sightings filter (repository.commits start stop))
  have once := consistent.nodup_itemsAfter filter
  refine ⟨_, holds_firsts consistent, once, ?_, ?_, found, part.trans ofRange, ?_, gives⟩
  · intro commit listed entry shown admitted object pointer canonical stored blob positive small
      decoded
    apply List.count_eq_one_of_mem once.of_map
    apply consistent.pointer_mem_itemsAfter listed shown admitted
    exact ObjectBase.pointer?_eq_some_iff.mpr
      ⟨object, pointer, canonical, stored, blob, positive, small, decoded, rfl⟩
  · intro path oid member
    obtain ⟨sighting, isFirst, given⟩ := consistent.mem_itemsAfter_iff.mp member
    obtain ⟨listed, shown, -⟩ := mem_sightings_iff.mp (ofRange.subset isFirst)
    cases given with
    | misplaced tracked improper =>
        exact ⟨sighting.commit, listed, ⟨sighting.entry, shown, rfl, rfl⟩, tracked, improper⟩
  · intro sighting member
    exact (mem_firsts_iff.mp (part.subset member)).2

/-- A pointer that two commits show at one path. -/
theorem holds_each_place_once_of_two_commits :
    ∃ items, Feed.Holds [.trees trackedFirst [] (ascii "tip") {}] items none ∧
      items.count (.sample (ascii "a.bin")) = 1 := by
  obtain ⟨items, holds, -, once, -⟩ := holds_each_place_once consistent_trackedFirst
  refine ⟨items, holds, ?_⟩
  exact once (ascii "c2") (by decide +kernel)
    ⟨ascii "100644", ascii "blob", ascii "a1", 126, ascii "a.bin"⟩ (by decide +kernel)
    (by decide +kernel) .sample .sample true rfl rfl (by decide +kernel) (by decide +kernel)
    (by decide +kernel)

/-- **Which misplaced files are reported.** A file is reported if it is neither empty nor a pointer
and the attribute files of the first tree of the range that shows it say that it should be one. What
those of other trees say does not count. -/
theorem misplaced_mem_iff (consistent : Consistent repository base start stop) :
    ∃ items, Feed.Holds [.trees repository start stop filter] items none ∧
      ∀ path oid, .misplaced path oid ∈ items ↔
        filter.allows path = true ∧ ¬ base.IsProper oid ∧
          ∃ commit, (repository.commits start stop).find? (repository.shows (oid, path)) =
              some commit ∧
            repository.Tracks base commit path := by
  refine ⟨_, holds_firsts consistent, fun path oid => ?_⟩
  rw [consistent.mem_itemsAfter_iff]
  constructor
  · rintro ⟨sighting, isFirst, given⟩
    have first := (mem_firsts_iff.mp isFirst).2
    have admitted := (mem_sightings_iff.mp ((firsts_sublist _ _).subset isFirst)).2.2
    cases given with
    | misplaced tracked improper =>
        exact ⟨admitted, improper, sighting.commit, find?_shows first, tracked⟩
  · rintro ⟨admitted, improper, commit, showsFirst, tracked⟩
    have does : repository.shows (oid, path) commit = true := List.find?_some showsFirst
    obtain ⟨entry, shown, same⟩ := List.any_eq_true.mp does
    obtain ⟨rfl, rfl⟩ := Prod.mk.inj (of_decide_eq_true same)
    have seen : ⟨commit, entry⟩ ∈ repository.sightings filter (repository.commits start stop) :=
      mem_sightings_iff.mpr ⟨List.mem_of_find?_eq_some showsFirst, shown, admitted⟩
    obtain ⟨first, isFirst, samePlace⟩ := exists_first seen
    obtain ⟨sameOid, samePath⟩ := Prod.mk.inj samePlace
    have sameCommit : first.commit = commit := by
      have firstShows := find?_shows (mem_firsts_iff.mp isFirst).2
      rw [samePlace] at firstShows
      exact Option.some.inj (firstShows.symm.trans showsFirst)
    refine ⟨first, isFirst, ?_⟩
    dsimp only at sameOid samePath
    rw [← samePath, ← sameOid]
    apply Gives.misplaced
    · rwa [sameCommit, samePath]
    · rwa [sameOid]

/-- A file without a pointer in a commit that tracks its path, before a commit that does not. -/
theorem misplaced_mem_of_tracking_commit_first :
    ∃ items, Feed.Holds [.trees trackedFirst [] (ascii "tip") {}] items none ∧
      .misplaced (ascii "b.bin") (ascii "b1") ∈ items := by
  obtain ⟨items, holds, reported⟩ := misplaced_mem_iff consistent_trackedFirst
  refine ⟨items, holds, (reported _ _).mpr ⟨?_, ?_, ascii "c1", ?_, ?_⟩⟩ <;> decide +kernel

/-- A file that the first listed tree does not track is not reported for a later tree that does. -/
theorem misplaced_file_hidden_by_first_tree :
    Consistent trackedLast sampleBase [] (ascii "tip") ∧
      ascii "c1" ∈ trackedLast.commits [] (ascii "tip") ∧
      (∃ entry ∈ trackedLast.treeEntries (ascii "c1"), entry.path = ascii "b.bin" ∧
        entry.oid = ascii "b1") ∧
      PathFilter.allows {} (ascii "b.bin") = true ∧
      trackedLast.Tracks sampleBase (ascii "c1") (ascii "b.bin") ∧
      ¬ sampleBase.IsProper (ascii "b1") ∧
      ∀ items, Feed.Holds [.trees trackedLast [] (ascii "tip") {}] items none →
        .misplaced (ascii "b.bin") (ascii "b1") ∉ items := by
  have consistent : Consistent trackedLast sampleBase [] (ascii "tip") := by decide +kernel
  refine ⟨consistent, by decide +kernel, by decide +kernel, by decide +kernel, by decide +kernel,
    by decide +kernel, fun items holds => ?_⟩
  rw [(holds.unique (holds_firsts consistent)).1]
  decide +kernel

end TreeScan

end StoreAudit
