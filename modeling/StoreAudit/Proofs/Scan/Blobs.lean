import StoreAudit.Proofs.Git.Answers
import StoreAudit.Proofs.Scan.Delivery

/-!
# Which objects are pointers

The pointer under a name is settled by what git has under it. The sizes that headers and listings
give only save the reading of objects that cannot be pointers.
-/

namespace StoreAudit

/-- Only a text of a pointer's size is read as one. -/
theorem Pointer.size_of_decode? {text : Bytes} {read : Pointer × Bool}
    (decoded : decode? text = some read) : 0 < text.length ∧ text.length < maxSize := by
  cases text with
  | nil => cases decoded
  | cons byte rest =>
      refine ⟨Nat.succ_pos _, ?_⟩
      by_contra long
      rw [decode?, decide_eq_false long] at decoded
      cases decoded

/-- The pointer that stands under a name, as found at a path. -/
def ObjectBase.pointer? (base : ObjectBase) (oid path : Bytes) : Option FoundPointer :=
  (base.find? oid).bind fun object =>
    if object.type = ascii "blob" then FoundPointer.ofBlob? path oid object.content else none

/-- A pointer is a small file that reads as one, and is found with its name and its place. -/
theorem ObjectBase.pointer?_eq_some_iff {base : ObjectBase} {oid path : Bytes}
    {found : FoundPointer} :
    base.pointer? oid path = some found ↔ ∃ object pointer canonical,
      base.find? oid = some object ∧ object.type = ascii "blob" ∧
      0 < object.content.length ∧ object.content.length < Pointer.maxSize ∧
      Pointer.decode? object.content = some (pointer, canonical) ∧
      found = ⟨path, oid, pointer.oid, pointer.size, canonical⟩ := by
  unfold pointer? FoundPointer.ofBlob?
  constructor
  · intro result
    obtain ⟨object, stored, result⟩ := Option.bind_eq_some_iff.mp result
    split at result
    · rename_i blob
      obtain ⟨⟨pointer, canonical⟩, decoded, rfl⟩ := Option.map_eq_some_iff.mp result
      obtain ⟨positive, small⟩ := Pointer.size_of_decode? decoded
      exact ⟨object, pointer, canonical, stored, blob, positive, small, decoded, rfl⟩
    · cases result
  · rintro ⟨object, pointer, canonical, stored, blob, -, -, decoded, rfl⟩
    rw [stored, Option.bind_some, if_pos blob, decoded]
    rfl

/-- The item that stands under a name, if it is a pointer. -/
def ObjectBase.item? (base : ObjectBase) (oid path : Bytes) : Option ScanItem :=
  (base.pointer? oid path).map .pointer

/-- The items of a base are its small blobs that are read as pointers. -/
theorem ObjectBase.item?_eq_some_iff {base : ObjectBase} {oid path : Bytes} {item : ScanItem} :
    base.item? oid path = some item ↔ ∃ object pointer canonical,
      base.find? oid = some object ∧ object.type = ascii "blob" ∧
      0 < object.content.length ∧ object.content.length < Pointer.maxSize ∧
      Pointer.decode? object.content = some (pointer, canonical) ∧
      item = .pointer ⟨path, oid, pointer.oid, pointer.size, canonical⟩ := by
  unfold item?
  constructor
  · intro result
    obtain ⟨found, isPointer, rfl⟩ := Option.map_eq_some_iff.mp result
    obtain ⟨object, pointer, canonical, stored, blob, positive, small, decoded, rfl⟩ :=
      pointer?_eq_some_iff.mp isPointer
    exact ⟨object, pointer, canonical, stored, blob, positive, small, decoded, rfl⟩
  · rintro ⟨object, pointer, canonical, stored, blob, positive, small, decoded, rfl⟩
    refine Option.map_eq_some_iff.mpr ⟨_, pointer?_eq_some_iff.mpr ?_, rfl⟩
    exact ⟨object, pointer, canonical, stored, blob, positive, small, decoded, rfl⟩

/-- Sizes of small blobs are what they are as machine numbers. -/
theorem int64_bounds {size : Nat} (positive : 0 < size) (small : size < Pointer.maxSize) :
    0 < Int64.ofNat size ∧ Int64.ofNat size < Int64.ofNat Pointer.maxSize := by
  unfold Pointer.maxSize at *
  have exact : (Int64.ofNat size).toInt = size := Int64.toInt_ofNat_of_lt (by omega)
  have limit : (Int64.ofNat 1024).toInt = 1024 := rfl
  constructor <;> rw [Int64.lt_iff_toInt_lt]
  · rw [exact]
    exact Int.natCast_pos.mpr positive
  · rw [exact, limit]
    omega

/-- Only a size of zero is zero as a machine number. -/
theorem int64_ofNat_eq_zero {size : Nat} (fits : size < 2 ^ 64) (zero : Int64.ofNat size = 0) :
    size = 0 := by
  have word : (UInt64.ofNat size).toNat = 0 :=
    congrArg (fun (value : Int64) => value.toUInt64.toNat) zero
  rwa [UInt64.toNat_ofNat_of_lt' fits] at word

/-- A guard that lets every small file pass changes nothing. -/
theorem ObjectBase.pointer?_of_guard {base : ObjectBase} {oid path : Bytes} {object : StoredObject}
    (stored : base.find? oid = some object) {guard : Bool}
    (files : guard = true → object.type = ascii "blob")
    (passes : object.type = ascii "blob" → 0 < object.content.length →
      object.content.length < Pointer.maxSize → guard = true) :
    (if guard then FoundPointer.ofBlob? path oid object.content else none) =
      base.pointer? oid path := by
  unfold pointer?
  rw [stored, Option.bind_some]
  by_cases blob : object.type = ascii "blob"
  · rw [if_pos blob]
    cases shape : guard with
    | true => rfl
    | false =>
        have unread : Pointer.decode? object.content = none := by
          cases decoded : Pointer.decode? object.content with
          | none => rfl
          | some read =>
              obtain ⟨positive, small⟩ := Pointer.size_of_decode? decoded
              cases shape.symm.trans (passes blob positive small)
        simp [FoundPointer.ofBlob?, unread]
  · have shut : guard = false := by
      by_contra open'
      exact blob (files (by simpa using open'))
    simp [blob, shut]

/-- The header of a small file says that it can be a pointer. -/
theorem StoredObject.mayBePointer_seen {object : StoredObject} (mode : LookupMode)
    (blob : object.type = ascii "blob") (positive : 0 < object.content.length)
    (small : object.content.length < Pointer.maxSize) : (object.seen mode).mayBePointer = true := by
  obtain ⟨above, below⟩ := int64_bounds positive small
  have nonzero : Int64.ofNat object.content.length ≠ 0 := fun zero => by
    rw [zero] at above
    cases above
  simp [FoundObject.mayBePointer, seen, blob, below, nonzero]

/-- A condition on what is read that passes files only, and everything that can be a pointer. -/
structure Fair {α : Type} (isFile mayBe reads : α → Bool) : Prop where
  files : ∀ value, reads value = true → isFile value = true
  candidates : ∀ value, mayBe value = true → reads value = true

/-- The object is a file. -/
def FoundObject.isFile (object : FoundObject) : Bool := object.type = ascii "blob"

/-- A condition on headers that passes files only, and every file that can be a pointer. -/
abbrev FoundObject.FairFor (reads : FoundObject → Bool) : Prop :=
  Fair FoundObject.isFile FoundObject.mayBePointer reads

private theorem FoundObject.isFile_of_mayBePointer {object : FoundObject}
    (may : object.mayBePointer = true) : object.isFile = true := by
  unfold mayBePointer at may
  exact (Bool.and_eq_true_iff.mp (Bool.and_eq_true_iff.mp may).1).1

/-- The look at type and size passes over no pointer. -/
theorem FoundObject.fairFor_mayBePointer : FairFor mayBePointer :=
  ⟨fun _ => isFile_of_mayBePointer, fun _ => id⟩

/-- The look at the type passes over no pointer. -/
theorem FoundObject.fairFor_isFile : FairFor isFile :=
  ⟨fun _ => id, fun _ => isFile_of_mayBePointer⟩

/-- The header of an object tells whether it can be a pointer; more may be read. -/
theorem ObjectBase.pointer?_of_header {base : ObjectBase} {oid path : Bytes}
    {object : StoredObject} (stored : base.find? oid = some object) (mode : LookupMode)
    {reads : FoundObject → Bool} (fair : FoundObject.FairFor reads) :
    (if reads (object.seen mode) then FoundPointer.ofBlob? path oid object.content else none) =
      base.pointer? oid path := by
  apply pointer?_of_guard stored
  · exact fun read => of_decide_eq_true (fair.files _ read)
  · intro blob positive small
    exact fair.candidates _ (object.mayBePointer_seen mode blob positive small)

/-- A pointer in its canonical form. -/
def Pointer.sample : Pointer := ⟨List.replicate 64 Ascii.zero, 5, []⟩

/-- The pointer as git has it under a name. -/
def StoredObject.sample : StoredObject := .file (ascii "a1") Pointer.sample.encode

/-- The item that the pointer gives at a path. -/
def ScanItem.sample (path : Bytes) : ScanItem :=
  .pointer ⟨path, ascii "a1", Pointer.sample.oid, Pointer.sample.size, true⟩

end StoreAudit
