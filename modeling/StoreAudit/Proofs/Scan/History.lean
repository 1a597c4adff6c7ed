import StoreAudit.Proofs.Scan.Delivery
import StoreAudit.Proofs.Scan.Guards

/-!
# What a scan of history delivers

A line of the listing counts if it gives an object and a name that the filter admits. The scan goes
through the lines that count: it delivers the pointers among them, in order, until the listing ends
or an object is missing (`HistoryScan.delivers_advance`). Which lines do not count, and what git has
for those, makes no difference. Nor does it matter what is read besides the files that can be
pointers.
-/

namespace StoreAudit

open Audit

/-- The line gives an object and a name that the filter admits. -/
structure ListsObject (filter : PathFilter) (line oid name : Bytes) : Prop where
  line_eq : line = oid ++ Ascii.space :: name
  word : Ascii.space ∉ oid
  named : name ≠ []
  admitted : filter.allows name = true

namespace HistoryScan

variable {filter : PathFilter} {base : ObjectBase} {repository : Repository}
  {reads : FoundObject → Bool}

/-- A line makes a candidate exactly if it lists an object at a path that the filter allows. -/
theorem candidate?_eq_some_iff {line oid name : Bytes} :
    candidate? filter line = some (oid, name) ↔ ListsObject filter line oid name := by
  unfold candidate?
  constructor
  · intro result
    split at result
    · rename_i before after cut
      obtain ⟨parts, absent⟩ := Bytes.splitFirst_eq_some_iff.mp cut
      split at result
      · cases result
      · rename_i counts
        cases result
        simp only [Bool.or_eq_true, List.isEmpty_iff, Bool.not_eq_true', not_or,
          Bool.not_eq_false] at counts
        exact ⟨parts, absent, counts.1, counts.2⟩
    · cases result
  · rintro ⟨parts, word, named, admitted⟩
    rw [Bytes.splitFirst_eq_some_iff.mpr ⟨parts, word⟩]
    simp [named, admitted]

/-- The failure that an object is, if git does not have it. -/
def lackOf (base : ObjectBase) (candidate : Bytes × Bytes) : Option Failure :=
  match base.find? candidate.1 with
  | some _ => none
  | none => some (.missingObject candidate.1)

/-- The items of the objects before the first one that git does not have. -/
def itemsOf (base : ObjectBase) (candidates : List (Bytes × Bytes)) : List ScanItem :=
  (candidates.takeWhile fun candidate => (lackOf base candidate).isNone).filterMap
    fun candidate => base.item? candidate.1 candidate.2

/-- The failure after all lines: how the commands ended. -/
def ending (repository : Repository) (start stop : Bytes) : Option Failure :=
  (repository.callFailure? (historyArguments true start stop)).or
    ((repository.lookupFailure? .headers).or (repository.lookupFailure? .contents))

/-- A scan under way that will end with a failure or without. -/
structure Ready (scan : HistoryScan) (repository : Repository) (filter : PathFilter)
    (listed : Option Failure) : Prop where
  sameFilter : scan.filter = filter
  listing : Ends scan.listing.child.wait listed
  headers : scan.headers.InStep repository .headers
  contents : scan.contents.InStep repository .contents

namespace Ready

variable {scan : HistoryScan} {listed : Option Failure}

private theorem close_ends (ready : scan.Ready repository filter listed) :
    Ends scan.close
      (listed.or ((repository.lookupFailure? .headers).or (repository.lookupFailure? .contents))) :=
  ready.listing.bind (ready.headers.close_ends.bind ready.contents.close_ends)

/-- An object that git has is looked up. -/
theorem lookUp (ready : scan.Ready repository filter listed) (fair : FoundObject.FairFor reads)
    {oid : Bytes} (name : Bytes) {object : StoredObject} (found : base.find? oid = some object)
    (answers : ∀ mode, repository.transcript.lookup mode oid = base.reply mode oid) :
    ∃ later, scan.lookUpIf reads oid name = pure (base.pointer? oid name, later) ∧
      later.Ready repository filter listed := by
  obtain ⟨headers, header, headersStill⟩ := ready.headers.get found (answers .headers)
  rw [← ObjectBase.pointer?_of_header found .headers fair]
  by_cases read : reads (object.seen .headers) = true
  · obtain ⟨contents, content, contentsStill⟩ := ready.contents.get found (answers .contents)
    refine ⟨{ scan with headers, contents }, ?_,
      ⟨ready.sameFilter, ready.listing, headersStill, contentsStill⟩⟩
    simp only [HistoryScan.lookUpIf, header, pure_bind, read, if_true, content]
    rfl
  · refine ⟨{ scan with headers }, ?_,
      ⟨ready.sameFilter, ready.listing, headersStill, ready.contents⟩⟩
    simp only [HistoryScan.lookUpIf, header, pure_bind, read]
    rfl

private theorem lookUp_missing (ready : scan.Ready repository filter listed) {oid name : Bytes}
    (absent : base.find? oid = none) (word : Ascii.space ∉ oid ∧ Ascii.newline ∉ oid)
    (answers : ∀ mode, repository.transcript.lookup mode oid = base.reply mode oid) :
    scan.lookUpIf reads oid name = throw (.missingObject oid) := by
  rw [HistoryScan.lookUpIf, ready.headers.get_missing absent word (answers .headers)]
  rfl

end Ready

/-- A scan delivers the pointers among the lines that count, until an object is missing or the
listing ends. -/
theorem delivers_advance (fair : FoundObject.FairFor reads) {lines : List Bytes}
    (whole : ∀ line ∈ lines, Ascii.newline ∉ line)
    (answers : ∀ line ∈ lines, ∀ oid name, ListsObject filter line oid name →
      ∀ mode, repository.transcript.lookup mode oid = base.reply mode oid)
    {scan : HistoryScan} {listed : Option Failure}
    (ready : scan.Ready repository filter listed) :
    let candidates := lines.filterMap (candidate? filter)
    Delivers (nextIf reads) ((candidates.findSome? (lackOf base)).or
        (listed.or ((repository.lookupFailure? .headers).or (repository.lookupFailure? .contents))))
      (itemsOf base candidates) (scan.advanceIf reads lines) := by
  induction lines generalizing scan with
  | nil => exact Delivers.bind succeeds_checkInterrupt fun _ _ => .ended ready.close_ends
  | cons line rest ih =>
      obtain ⟨wholeLine, wholeRest⟩ := List.forall_mem_cons.mp whole
      obtain ⟨answersLine, answersRest⟩ := List.forall_mem_cons.mp answers
      unfold advanceIf
      apply Delivers.bind succeeds_checkInterrupt
      intro _ _
      rw [ready.sameFilter]
      cases shape : candidate? filter line with
      | none =>
          rw [List.filterMap_cons_none shape]
          exact ih wholeRest answersRest ready
      | some candidate =>
          obtain ⟨oid, name⟩ := candidate
          have lists := candidate?_eq_some_iff.mp shape
          rw [List.filterMap_cons_some shape]
          have answersName := answersLine oid name lists
          cases stored : base.find? oid with
          | none =>
              have onLine : Ascii.newline ∉ oid := fun member =>
                wholeLine (lists.line_eq ▸ List.mem_append_left _ member)
              have lack : lackOf base (oid, name) = some (.missingObject oid) := by
                simp [lackOf, stored]
              simp only [ready.lookUp_missing stored ⟨lists.word, onLine⟩ answersName, itemsOf,
                List.findSome?_cons, lack, List.takeWhile_cons]
              exact .failed (fails_throw _)
          | some object =>
              obtain ⟨later, looked, still⟩ := ready.lookUp fair name stored answersName
              have further := ih wholeRest answersRest still
              have lack : lackOf base (oid, name) = none := by simp [lackOf, stored]
              simp only [looked, pure_bind, itemsOf, List.findSome?_cons, lack,
                List.takeWhile_cons, Option.isNone_none, if_true, List.filterMap_cons,
                ObjectBase.item?]
              cases base.pointer? oid name with
              | none => exact further
              | some found =>
                  refine .item ?_
                  exact ih wholeRest answersRest
                    ⟨still.sameFilter, still.listing, still.headers, still.contents⟩

/-- Where the system refuses nothing, the scan starts with all that is listed. -/
theorem succeeds_start (repository : Repository) (start stop : Bytes) (filter : PathFilter) :
    Succeeds (HistoryScan.start repository start stop filter) fun scan =>
      scan.Ready repository filter (repository.callFailure? (historyArguments true start stop)) ∧
        scan.listing.records =
          repository.recordsOf (historyArguments true start stop) Ascii.newline := by
  have other : Child.lookupMode? ((historyArguments true start stop).map Bytes.beforeNul) = none :=
    Child.lookupMode?_eq_none (by decide)
  refine .bind (RecordListing.succeeds_start _ other) fun listing started => ?_
  refine .bind (Lookup.InStep.succeeds_start repository .headers) fun headers headersReady => ?_
  refine .bind (Lookup.InStep.succeeds_start repository .contents) fun contents contentsReady => ?_
  exact succeeds_pure ⟨⟨rfl, started.ends, headersReady, contentsReady⟩, started.records⟩

/-- The lines that list a range. -/
def lines (repository : Repository) (start stop : Bytes) : List Bytes :=
  repository.recordsOf (historyArguments true start stop) Ascii.newline

/-- Git answers as the base says to the names that lines give. -/
def Answered (repository : Repository) (base : ObjectBase) (filter : PathFilter)
    (lines : List Bytes) : Prop :=
  ∀ line ∈ lines, ∀ oid name, ListsObject filter line oid name →
    ∀ mode, repository.transcript.lookup mode oid = base.reply mode oid

variable {start stop : Bytes}

/-- Whatever is read besides the files that can be pointers, the scan delivers the same. -/
theorem delivers_candidates (fair : FoundObject.FairFor reads)
    (answered : Answered repository base filter (lines repository start stop)) :
    let candidates := (lines repository start stop).filterMap (candidate? filter)
    Delivers (nextIf reads)
      ((candidates.findSome? (lackOf base)).or (ending repository start stop))
      (itemsOf base candidates)
      (HistoryScan.start repository start stop filter >>= nextIf reads) := by
  apply Delivers.bind (succeeds_start repository start stop filter)
  rintro scan ⟨ready, records⟩
  rw [nextIf, records]
  exact delivers_advance fair (fun line member => (Bytes.infix_of_mem_split member).2) answered
    ready

private theorem holds_candidates
    (answered : Answered repository base filter (lines repository start stop)) :
    let candidates := (lines repository start stop).filterMap (candidate? filter)
    Feed.Holds [.history repository start stop filter] (itemsOf base candidates)
      ((candidates.findSome? (lackOf base)).or (ending repository start stop)) := by
  apply Feed.holds_of_scan Section.historyScan rfl (fun _ => rfl) (fun _ => rfl)
  rw [← nextIf_mayBePointer]
  exact delivers_candidates FoundObject.fairFor_mayBePointer answered

/-- The item that a line gives, if it counts and its object is a pointer. -/
def item? (base : ObjectBase) (filter : PathFilter) (line : Bytes) : Option ScanItem :=
  (candidate? filter line).bind fun candidate => base.item? candidate.1 candidate.2

private theorem item?_eq_some_iff {line : Bytes} {item : ScanItem} :
    item? base filter line = some item ↔ ∃ oid name object pointer canonical,
      ListsObject filter line oid name ∧ base.find? oid = some object ∧
      object.type = ascii "blob" ∧ 0 < object.content.length ∧
      object.content.length < Pointer.maxSize ∧
      Pointer.decode? object.content = some (pointer, canonical) ∧
      item = .pointer ⟨name, oid, pointer.oid, pointer.size, canonical⟩ := by
  unfold item?
  constructor
  · intro result
    obtain ⟨⟨oid, name⟩, counts, isPointer⟩ := Option.bind_eq_some_iff.mp result
    obtain ⟨object, pointer, canonical, given⟩ := ObjectBase.item?_eq_some_iff.mp isPointer
    exact ⟨oid, name, object, pointer, canonical, candidate?_eq_some_iff.mp counts, given⟩
  · rintro ⟨oid, name, object, pointer, canonical, lists, given⟩
    rw [candidate?_eq_some_iff.mpr lists, Option.bind_some]
    exact ObjectBase.item?_eq_some_iff.mpr ⟨object, pointer, canonical, given⟩

/-- Git has the objects of all lines that count. -/
def Complete (base : ObjectBase) (filter : PathFilter) (lines : List Bytes) : Prop :=
  ∀ line ∈ lines, ∀ oid name, ListsObject filter line oid name → base.find? oid ≠ none

/-- A base is complete for lines if it has every candidate. -/
theorem complete_iff {lines : List Bytes} : Complete base filter lines ↔
    ∀ candidate ∈ lines.filterMap (candidate? filter), base.find? candidate.1 ≠ none := by
  constructor
  · intro complete candidate member
    obtain ⟨line, listed, counts⟩ := List.mem_filterMap.mp member
    exact complete line listed _ _ (candidate?_eq_some_iff.mp counts)
  · intro complete line listed oid name lists
    exact complete (oid, name)
      (List.mem_filterMap.mpr ⟨line, listed, candidate?_eq_some_iff.mpr lists⟩)

private theorem lackOf_of_complete {lines : List Bytes} (complete : Complete base filter lines) :
    ∀ candidate ∈ lines.filterMap (candidate? filter), lackOf base candidate = none := by
  intro candidate member
  have there := complete_iff.mp complete candidate member
  cases stored : base.find? candidate.1 with
  | none => exact absurd stored there
  | some object => simp [lackOf, stored]

private theorem itemsOf_append {lines : List Bytes} (complete : Complete base filter lines)
    (more : List (Bytes × Bytes)) :
    itemsOf base (lines.filterMap (candidate? filter) ++ more) =
      lines.filterMap (item? base filter) ++ itemsOf base more := by
  have there : ∀ candidate ∈ lines.filterMap (candidate? filter),
      (lackOf base candidate).isNone = true := by
    intro candidate member
    rw [lackOf_of_complete complete candidate member]
    rfl
  rw [itemsOf, List.takeWhile_append_of_pos there, List.filterMap_append, List.filterMap_filterMap]
  rfl

private theorem findSome?_lackOf_append {lines : List Bytes} (complete : Complete base filter lines)
    (more : List (Bytes × Bytes)) :
    (lines.filterMap (candidate? filter) ++ more).findSome? (lackOf base) =
      more.findSome? (lackOf base) := by
  have none := List.findSome?_eq_none_iff.mpr (lackOf_of_complete complete)
  rw [List.findSome?_append, none, Option.none_or]

/-- If git has all objects that count, the scan delivers the pointers among them, whatever else is
read, and ends as its commands do. -/
theorem delivers_complete (fair : FoundObject.FairFor reads)
    (answered : Answered repository base filter (lines repository start stop))
    (complete : Complete base filter (lines repository start stop)) :
    Delivers (nextIf reads) (ending repository start stop)
      ((lines repository start stop).filterMap (item? base filter))
      (HistoryScan.start repository start stop filter >>= nextIf reads) := by
  have delivers := delivers_candidates fair answered
  have items := itemsOf_append complete []
  have lack := findSome?_lackOf_append complete []
  simp only [List.append_nil] at items lack
  simp only [items, lack] at delivers
  simpa [itemsOf] using delivers

/-- The pointers that lines give. -/
theorem pointer_mem_iff {lines : List Bytes} {found : FoundPointer} :
    .pointer found ∈ lines.filterMap (item? base filter) ↔
      ∃ line ∈ lines, ∃ oid path, ListsObject filter line oid path ∧
        base.pointer? oid path = some found := by
  rw [List.mem_filterMap]
  refine exists_congr fun line => and_congr_right fun _ => ?_
  simp only [item?, Option.bind_eq_some_iff, ObjectBase.item?, Option.map_eq_some_iff,
    ScanItem.pointer.injEq, exists_eq_right, Prod.exists, candidate?_eq_some_iff]

/-- **The pointers in history.** Of the lines that list a range, those count that give an object and
a name that the filter admits. If git has all the objects of these, one pointer is delivered for
each that is one, in the order of the lines, and then the scan ends as its commands do; else the
scan fails at the first line whose object is missing. Other lines are not looked up: wherever they
stand and whatever git has for them, they change nothing. -/
theorem holds_listed_pointers
    (answered : Answered repository base filter (lines repository start stop)) :
    (∀ line item, item? base filter line = some item ↔ ∃ oid name object pointer canonical,
      ListsObject filter line oid name ∧ base.find? oid = some object ∧
      object.type = ascii "blob" ∧ 0 < object.content.length ∧
      object.content.length < Pointer.maxSize ∧
      Pointer.decode? object.content = some (pointer, canonical) ∧
      item = .pointer ⟨name, oid, pointer.oid, pointer.size, canonical⟩) ∧
    (Complete base filter (lines repository start stop) →
      Feed.Holds [.history repository start stop filter]
        ((lines repository start stop).filterMap (item? base filter))
        (ending repository start stop)) ∧
    (∀ before line after oid name, lines repository start stop = before ++ line :: after →
      Complete base filter before → ListsObject filter line oid name → base.find? oid = none →
      Feed.Holds [.history repository start stop filter] (before.filterMap (item? base filter))
          (some (.missingObject oid)) ∧
        (Failure.missingObject oid).kind = .coded .scanFailed) ∧
    ∀ other before extra after, lines repository start stop = before ++ after →
      lines other start stop = before ++ extra ++ after →
      (∀ line ∈ extra, ∀ oid name, ¬ ListsObject filter line oid name) →
      Answered other base filter (lines other start stop) →
      ending other start stop = ending repository start stop →
      ∀ items failure, Feed.Holds [.history other start stop filter] items failure ↔
        Feed.Holds [.history repository start stop filter] items failure := by
  have holds := holds_candidates answered
  dsimp only at holds
  refine ⟨fun _ _ => item?_eq_some_iff, fun complete => ?_,
    fun before line after oid name split complete lists absent => ⟨?_, rfl⟩,
    fun other before extra after split otherSplit idle otherAnswered sameEnding items failure => ?_⟩
  · have items := itemsOf_append complete []
    have lack := findSome?_lackOf_append complete []
    simp only [List.append_nil] at items lack
    rw [items, lack] at holds
    simpa [itemsOf] using holds
  · have lack : lackOf base (oid, name) = some (.missingObject oid) := by simp [lackOf, absent]
    rw [split, List.filterMap_append,
      List.filterMap_cons_some (candidate?_eq_some_iff.mpr lists), itemsOf_append complete,
      findSome?_lackOf_append complete] at holds
    simpa [itemsOf, lack] using holds
  · have none : extra.filterMap (candidate? filter) = [] := by
      apply List.filterMap_eq_nil_iff.mpr
      intro line member
      cases counts : candidate? filter line with
      | none => rfl
      | some candidate =>
          exact absurd (candidate?_eq_some_iff.mp counts) (idle line member _ _)
    have otherHolds := holds_candidates otherAnswered
    dsimp only at otherHolds
    have same : (lines other start stop).filterMap (candidate? filter) =
        (lines repository start stop).filterMap (candidate? filter) := by
      rw [otherSplit, split, List.filterMap_append, List.filterMap_append, List.filterMap_append,
        none, List.append_nil]
    rw [same, sameEnding] at otherHolds
    constructor
    · intro given
      obtain ⟨rfl, rfl⟩ := given.unique otherHolds
      exact holds
    · intro given
      obtain ⟨rfl, rfl⟩ := given.unique holds
      exact otherHolds

def sampleObjects : List (Bytes × StoredObject) :=
  [(ascii "a1", .sample),
    (ascii "c1", { digest := ascii "c1", type := ascii "commit", content := ascii "tree" })]

def sampleBase : ObjectBase := .ofList sampleObjects (by decide +kernel)

def sampleFilter : PathFilter := { excluded := [ascii "*.txt"] }

/-- A history of a commit, a directory, an excluded file that is missing, a pointer and an admitted
file that is missing. -/
def sampleRepository : Repository where
  directory := []
  transcript :=
    { calls := [{ arguments := historyArguments true [] (ascii "c1")
                  output := ascii "c1\nd1 \ne1 e.txt\na1 a b.bin\nb1 b.bin\n" }]
      objects := sampleObjects.map StoredObject.entry }

/-- A pointer, and then an object that is not there. -/
theorem holds_listed_pointers_of_missing_object :
    Feed.Holds [.history sampleRepository [] (ascii "c1") sampleFilter]
      [.sample (ascii "a b.bin")] (some (.missingObject (ascii "b1"))) := by
  have answered : Answered sampleRepository sampleBase sampleFilter
      (lines sampleRepository [] (ascii "c1")) :=
    fun _ _ oid _ _ mode => ObjectBase.lookup_ofList rfl _ mode oid
  have complete : Complete sampleBase sampleFilter
      [ascii "c1", ascii "d1 ", ascii "e1 e.txt", ascii "a1 a b.bin"] := by
    rw [complete_iff]
    decide +kernel
  have lists : ListsObject sampleFilter (ascii "b1 b.bin") (ascii "b1") (ascii "b.bin") :=
    candidate?_eq_some_iff.mp (by decide +kernel)
  have items : [ascii "c1", ascii "d1 ", ascii "e1 e.txt", ascii "a1 a b.bin"].filterMap
      (item? sampleBase sampleFilter) = [.sample (ascii "a b.bin")] := by
    decide +kernel
  have holds := (holds_listed_pointers answered).2.2.1 _ _ [] _ _ (by decide +kernel) complete lists
    (by decide +kernel)
  rw [items] at holds
  exact holds.1

end HistoryScan

end StoreAudit
