import StoreAudit.Proofs.Scan.Guards

/-!
# What trees show

The trees of commits show entries. Of the entries of one object at one path only the first one
counts (`Sighting.firsts`), and it gives a pointer, or a file that should be one, or nothing
(`Sighting.Gives`).
-/

namespace StoreAudit

/-- The object and the path of an item. -/
def ScanItem.place : ScanItem → Bytes × Bytes
  | pointer found => (found.blobOid, found.name)
  | misplaced path treeOid => (treeOid, path)

namespace ObjectBase

/-- What git has under a name is an empty file or a pointer. -/
def IsProper (base : ObjectBase) (oid : Bytes) : Prop :=
  ∃ object, base.find? oid = some object ∧ object.type = ascii "blob" ∧
    (object.content = [] ∨
      object.content.length < Pointer.maxSize ∧ Pointer.decode? object.content ≠ none)

instance (base : ObjectBase) (oid : Bytes) : Decidable (base.IsProper oid) :=
  inferInstanceAs (Decidable (∃ object ∈ base.find? oid, object.type = ascii "blob" ∧
    (object.content = [] ∨
      object.content.length < Pointer.maxSize ∧ Pointer.decode? object.content ≠ none)))

/-- The content under a name. -/
def content (base : ObjectBase) (oid : Bytes) : Bytes :=
  (base.find? oid).elim [] (·.content)

/-- The attributes with those of one more file. -/
def addAttributes (base : ObjectBase) (attributes : Attributes) (entry : TreeEntry) : Attributes :=
  attributes.addFile (PathName.directory entry.path) (base.content entry.oid)

/-- The attributes that the attribute files among entries give. -/
def attributes (base : ObjectBase) (entries : List TreeEntry) : Attributes :=
  (entries.filter TreeEntry.isAttributeFile).foldl base.addAttributes {}

end ObjectBase

namespace TreeEntry

/-- What an entry says agrees with what git has: a file has the size of its content, and other
entries are no files. -/
structure Agrees (entry : TreeEntry) (base : ObjectBase) : Prop where
  file : entry.isBlob = true → ∃ object, base.find? entry.oid = some object ∧
    object.type = ascii "blob" ∧ entry.size = Int64.ofNat object.content.length
  other : entry.isBlob = false → ∀ object, base.find? entry.oid = some object →
    object.type ≠ ascii "blob"

instance (entry : TreeEntry) (base : ObjectBase) : Decidable (entry.Agrees base) :=
  decidable_of_iff
    ((entry.isBlob = true → ∃ object ∈ base.find? entry.oid,
        object.type = ascii "blob" ∧ entry.size = Int64.ofNat object.content.length) ∧
      (entry.isBlob = false → ∀ object ∈ base.find? entry.oid, object.type ≠ ascii "blob"))
    ⟨fun agrees => ⟨agrees.1, agrees.2⟩, fun agrees => ⟨agrees.file, agrees.other⟩⟩

variable {entry : TreeEntry} {base : ObjectBase}

/-- What is no blob is no pointer. -/
theorem Agrees.pointer?_of_not_blob (agrees : entry.Agrees base) (noFile : entry.isBlob = false)
    (path : Bytes) : base.pointer? entry.oid path = none := by
  by_contra some
  obtain ⟨found, isPointer⟩ := Option.ne_none_iff_exists'.mp some
  obtain ⟨object, -, -, stored, blob, -⟩ := ObjectBase.pointer?_eq_some_iff.mp isPointer
  exact agrees.other noFile object stored blob

/-- The size tells whether an entry can be a pointer; more may be read. -/
theorem Agrees.pointer?_eq (agrees : entry.Agrees base) {object : StoredObject}
    (stored : base.find? entry.oid = some object) {reads : TreeEntry → Bool}
    (fair : TreeEntry.FairFor reads) (path : Bytes) :
    (if reads entry then FoundPointer.ofBlob? path entry.oid object.content else none) =
      base.pointer? entry.oid path := by
  cases isBlob : entry.isBlob with
  | false =>
      have unread : ¬ reads entry = true := fun read => by
        rw [fair.files entry read] at isBlob
        cases isBlob
      rw [if_neg unread, agrees.pointer?_of_not_blob isBlob]
  | true =>
      obtain ⟨same, found, blob, size⟩ := agrees.file isBlob
      obtain rfl : object = same := Option.some.inj (stored.symm.trans found)
      apply ObjectBase.pointer?_of_guard stored
      · exact fun _ => blob
      · intro _ positive small
        apply fair.candidates
        obtain ⟨above, below⟩ := int64_bounds positive small
        simp [mayBePointer, isBlob, size, above, below]

/-- What a fair look passes over is no pointer. -/
theorem Agrees.pointer?_of_unread (agrees : entry.Agrees base) {reads : TreeEntry → Bool}
    (fair : TreeEntry.FairFor reads) (unread : reads entry = false) (path : Bytes) :
    base.pointer? entry.oid path = none := by
  cases stored : base.find? entry.oid with
  | none => simp [ObjectBase.pointer?, stored]
  | some object => rw [← agrees.pointer?_eq stored fair, unread]; rfl

/-- An entry is fine if it is an empty file or a pointer. -/
theorem Agrees.isProper_iff (agrees : entry.Agrees base) :
    base.IsProper entry.oid ↔
      entry.isEmptyFile = true ∨ base.pointer? entry.oid entry.path ≠ none := by
  constructor
  · rintro ⟨object, stored, blob, fine⟩
    have isBlob : entry.isBlob = true := by
      by_contra noFile
      exact agrees.other (by simpa using noFile) object stored blob
    obtain ⟨same, found, -, size⟩ := agrees.file isBlob
    obtain rfl : object = same := Option.some.inj (stored.symm.trans found)
    rcases fine with empty | ⟨small, decodes⟩
    · left
      simp [isEmptyFile, isBlob, size, empty]
    · right
      obtain ⟨⟨pointer, canonical⟩, decoded⟩ := Option.ne_none_iff_exists'.mp decodes
      obtain ⟨positive, -⟩ := Pointer.size_of_decode? decoded
      refine Option.ne_none_iff_exists'.mpr ⟨_, ObjectBase.pointer?_eq_some_iff.mpr
        ⟨object, pointer, canonical, stored, blob, positive, small, decoded, rfl⟩⟩
  · rintro (empty | isPointer)
    · simp only [isEmptyFile, Bool.and_eq_true, decide_eq_true_eq] at empty
      obtain ⟨object, stored, blob, size⟩ := agrees.file empty.1
      have none := int64_ofNat_eq_zero object.fits (size.symm.trans empty.2)
      exact ⟨object, stored, blob, .inl (List.length_eq_zero_iff.mp none)⟩
    · obtain ⟨found, isPointer⟩ := Option.ne_none_iff_exists'.mp isPointer
      obtain ⟨object, pointer, canonical, stored, blob, -, small, decoded, -⟩ :=
        ObjectBase.pointer?_eq_some_iff.mp isPointer
      exact ⟨object, stored, blob, .inr ⟨small, by simp [decoded]⟩⟩

end TreeEntry

/-- An entry that the tree of a commit shows. -/
structure Sighting where
  commit : Bytes
  entry : TreeEntry

namespace Sighting

/-- The object and the path that are seen. -/
def place (sighting : Sighting) : Bytes × Bytes := (sighting.entry.oid, sighting.entry.path)

/-- The sightings of what has not been seen before. -/
def firsts (before : List (Bytes × Bytes)) : List Sighting → List Sighting
  | [] => []
  | sighting :: rest =>
    if sighting.place ∈ before then firsts (before ++ [sighting.place]) rest
    else sighting :: firsts (before ++ [sighting.place]) rest

/-- The first sightings of two rows, those of the second as they are after the first. -/
theorem firsts_append (before : List (Bytes × Bytes)) (first second : List Sighting) :
    firsts before (first ++ second) =
      firsts before first ++ firsts (before ++ first.map place) second := by
  induction first generalizing before with
  | nil => simp [firsts]
  | cons sighting rest ih =>
      rw [List.cons_append, firsts, firsts, ih]
      split <;> simp

/-- First sightings come in their order. -/
theorem firsts_sublist (before : List (Bytes × Bytes)) (sightings : List Sighting) :
    (firsts before sightings).Sublist sightings := by
  induction sightings generalizing before with
  | nil => exact .slnil
  | cons sighting rest ih =>
      rw [firsts]
      split
      · exact (ih _).cons _
      · exact (ih _).cons_cons _

variable {before : List (Bytes × Bytes)} {sightings : List Sighting}

/-- A sighting counts if it is the first of its place, among all and those before. -/
theorem mem_firsts_iff {sighting : Sighting} :
    sighting ∈ firsts before sightings ↔ sighting.place ∉ before ∧
      sightings.find? (fun other => other.place = sighting.place) = some sighting := by
  induction sightings generalizing before with
  | nil => simp [firsts]
  | cons first rest ih =>
      rw [firsts, List.find?_cons]
      by_cases same : first.place = sighting.place
      · have later : sighting ∉ firsts (before ++ [first.place]) rest := fun member => by
          have new := (ih.mp member).1
          simp [same] at new
        by_cases old : first.place ∈ before
        · simp [← same, later, old]
        · simp [← same, later, old, eq_comm]
      · have apart : sighting ≠ first := fun equal => same (congrArg place equal.symm)
        simp only [same, decide_false]
        split <;> simp [ih, apart, Ne.symm same]

/-- No place is sighted first twice. -/
theorem nodup_firsts : ((firsts before sightings).map place).Nodup := by
  induction sightings generalizing before with
  | nil => exact List.nodup_nil
  | cons first rest ih =>
      rw [firsts]
      split
      · exact ih
      · rw [List.map_cons, List.nodup_cons]
        refine ⟨fun member => ?_, ih⟩
        obtain ⟨other, counts, same⟩ := List.mem_map.mp member
        have new := (mem_firsts_iff.mp counts).1
        simp [same] at new

/-- What has been seen has been seen for the first time. -/
theorem exists_first {sighting : Sighting} (member : sighting ∈ sightings) :
    ∃ first ∈ firsts [] sightings, first.place = sighting.place := by
  have found : (sightings.find? fun other => other.place = sighting.place).isSome = true :=
    List.find?_isSome.mpr ⟨sighting, member, by simp⟩
  obtain ⟨first, isFirst⟩ := Option.isSome_iff_exists.mp found
  have same : first.place = sighting.place := by simpa using List.find?_some isFirst
  exact ⟨first, mem_firsts_iff.mpr ⟨List.not_mem_nil, by rwa [same]⟩, same⟩

end Sighting

namespace Repository

/-- The commits of a range. -/
def commits (repository : Repository) (start stop : Bytes) : List Bytes :=
  (repository.recordsOf (historyArguments false start stop) Ascii.newline).map Bytes.trim

/-- The entries of the tree of a commit. -/
def treeEntries (repository : Repository) (commit : Bytes) : List TreeEntry :=
  (repository.recordsOf (TreeScan.arguments commit) 0).filterMap TreeEntry.ofRecord?

/-- The attribute files in the tree of a commit say that a path should be a pointer. -/
def Tracks (repository : Repository) (base : ObjectBase) (commit path : Bytes) : Prop :=
  (base.attributes (repository.treeEntries commit)).isTracked path = true

instance (repository : Repository) (base : ObjectBase) (commit path : Bytes) :
    Decidable (repository.Tracks base commit path) :=
  inferInstanceAs (Decidable (_ = true))

/-- What a tree with these entries shows of what the filter admits. -/
def sightingsOf (filter : PathFilter) (commit : Bytes) (entries : List TreeEntry) :
    List Sighting :=
  (entries.filter fun entry => filter.allows entry.path).map (Sighting.mk commit)

/-- What the trees of commits show of what the filter admits. -/
def sightings (repository : Repository) (filter : PathFilter) (commits : List Bytes) :
    List Sighting :=
  commits.flatMap fun commit => sightingsOf filter commit (repository.treeEntries commit)

/-- Every entry of every commit that the filter allows is sighted. -/
theorem mem_sightings_iff {repository : Repository} {filter : PathFilter} {commits : List Bytes}
    {sighting : Sighting} : sighting ∈ repository.sightings filter commits ↔
      sighting.commit ∈ commits ∧ sighting.entry ∈ repository.treeEntries sighting.commit ∧
        filter.allows sighting.entry.path = true := by
  unfold sightings sightingsOf
  simp only [List.mem_flatMap, List.mem_map, List.mem_filter]
  constructor
  · rintro ⟨commit, listed, entry, shown, rfl⟩
    exact ⟨listed, shown⟩
  · rintro ⟨listed, shown⟩
    exact ⟨sighting.commit, listed, sighting.entry, shown, rfl⟩

/-- The tree of a commit shows an object at a path. -/
def shows (repository : Repository) (place : Bytes × Bytes) (commit : Bytes) : Bool :=
  (repository.treeEntries commit).any fun entry => (entry.oid, entry.path) = place

/-- A place is seen first in the first tree that shows it. -/
theorem find?_shows {repository : Repository} {filter : PathFilter} {commits : List Bytes}
    {sighting : Sighting}
    (found : (repository.sightings filter commits).find?
      (fun other => other.place = sighting.place) = some sighting) :
    commits.find? (repository.shows sighting.place) = some sighting.commit := by
  induction commits with
  | nil => cases found
  | cons commit rest ih =>
      have admitted := (mem_sightings_iff.mp (List.mem_of_find?_eq_some found)).2.2
      rw [sightings, List.flatMap_cons, List.find?_append] at found
      cases here : (sightingsOf filter commit (repository.treeEntries commit)).find?
          (fun other => other.place = sighting.place) with
      | some first =>
          rw [here, Option.some_or] at found
          obtain rfl := Option.some.inj found
          obtain ⟨entry, shown, rfl⟩ := List.mem_map.mp (List.mem_of_find?_eq_some here)
          have does : repository.shows (Sighting.place ⟨commit, entry⟩) commit = true :=
            List.any_eq_true.mpr ⟨entry, (List.mem_filter.mp shown).1, by simp [Sighting.place]⟩
          rw [List.find?_cons_of_pos does]
      | none =>
          rw [here, Option.none_or] at found
          have doesNot : ¬ repository.shows sighting.place commit = true := by
            intro does
            obtain ⟨entry, shown, same⟩ := List.any_eq_true.mp does
            simp only [Sighting.place, decide_eq_true_eq, Prod.mk.injEq] at same
            have other := List.find?_eq_none.mp here ⟨commit, entry⟩
              (List.mem_map_of_mem (List.mem_filter.mpr ⟨shown, by rwa [same.2]⟩))
            simp [Sighting.place, same] at other
          rw [List.find?_cons_of_neg doesNot]
          exact ih found

end Repository

namespace Sighting

/-- What a sighting gives: a pointer is one, and a file that is tracked where it is seen should be
one, unless it is empty. -/
inductive Gives (repository : Repository) (base : ObjectBase) (sighting : Sighting) :
    ScanItem → Prop
  | pointer {found : FoundPointer}
      (isPointer : base.pointer? sighting.entry.oid sighting.entry.path = some found) :
      Gives repository base sighting (.pointer found)
  | misplaced (tracked : repository.Tracks base sighting.commit sighting.entry.path)
      (improper : ¬ base.IsProper sighting.entry.oid) :
      Gives repository base sighting (.misplaced sighting.entry.path sighting.entry.oid)

/-- The item that a sighting gives, if it gives one. -/
def item? (repository : Repository) (base : ObjectBase) (sighting : Sighting) : Option ScanItem :=
  match base.pointer? sighting.entry.oid sighting.entry.path with
  | some found => some (.pointer found)
  | none =>
    if !sighting.entry.isEmptyFile ∧ repository.Tracks base sighting.commit sighting.entry.path then
      some (.misplaced sighting.entry.path sighting.entry.oid)
    else none

variable {repository : Repository} {base : ObjectBase} {sighting : Sighting}

/-- The verdict on an entry is the item that its sighting gives. -/
theorem verdict_eq (repository : Repository) (base : ObjectBase) (commit : Bytes)
    (entry : TreeEntry) :
    TreeScan.verdict (base.attributes (repository.treeEntries commit)) entry
        (base.pointer? entry.oid entry.path) =
      (item? repository base ⟨commit, entry⟩).toList := by
  unfold item? TreeScan.verdict Repository.Tracks
  cases base.pointer? entry.oid entry.path with
  | some found => rfl
  | none =>
      simp only [Bool.and_eq_true]
      split <;> rfl

/-- A sighting gives an item exactly if it is one of the two kinds. -/
theorem item?_eq_some_iff (agrees : sighting.entry.Agrees base) {item : ScanItem} :
    sighting.item? repository base = some item ↔ sighting.Gives repository base item := by
  have proper := agrees.isProper_iff
  unfold item?
  constructor
  · intro result
    split at result
    · rename_i isPointer
      cases result
      exact .pointer isPointer
    · rename_i none
      split at result
      · rename_i should
        cases result
        refine .misplaced should.2 fun isProper => ?_
        rcases proper.mp isProper with empty | isPointer
        · simp [empty] at should
        · exact isPointer none
      · cases result
  · rintro (isPointer | ⟨tracked, improper⟩)
    · rw [isPointer]
    · have improper' := mt proper.mpr improper
      simp only [not_or, not_not] at improper'
      simp [improper', tracked]

private theorem Gives.place {item : ScanItem} (gives : sighting.Gives repository base item) :
    item.place = sighting.place := by
  cases gives with
  | misplaced => rfl
  | pointer isPointer =>
      obtain ⟨-, -, -, -, -, -, -, -, rfl⟩ := ObjectBase.pointer?_eq_some_iff.mp isPointer
      rfl

/-- The items that sightings give are those of some of them, in the same order. -/
theorem exists_sublist_gives (repository : Repository) {sightings : List Sighting}
    (agrees : ∀ sighting ∈ sightings, sighting.entry.Agrees base) :
    ∃ found : List Sighting, found.Sublist sightings ∧
      List.Forall₂ (Gives repository base) found
        (sightings.filterMap (item? repository base)) := by
  induction sightings with
  | nil => exact ⟨[], .slnil, .nil⟩
  | cons sighting rest ih =>
      obtain ⟨agreesFirst, agreesRest⟩ := List.forall_mem_cons.mp agrees
      obtain ⟨found, part, gives⟩ := ih agreesRest
      cases shape : sighting.item? repository base with
      | none =>
          rw [List.filterMap_cons_none shape]
          exact ⟨found, part.cons _, gives⟩
      | some item =>
          rw [List.filterMap_cons_some shape]
          have given := (item?_eq_some_iff agreesFirst).mp shape
          exact ⟨sighting :: found, part.cons_cons _, .cons given gives⟩

/-- Items are at the places of their sightings. -/
theorem places_eq {found : List Sighting} {items : List ScanItem}
    (gives : List.Forall₂ (Gives repository base) found items) :
    items.map ScanItem.place = found.map place := by
  induction gives with
  | nil => rfl
  | cons given _ ih => rw [List.map_cons, List.map_cons, given.place, ih]

end Sighting

end StoreAudit
