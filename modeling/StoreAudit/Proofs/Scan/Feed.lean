import StoreAudit.Proofs.Git.Endings
import StoreAudit.Proofs.Scan.Steps

/-!
# What a feed delivers

Every item that a feed delivers lowers its bound, so asking it again and again comes to an end.
`Feed.contents` is everything that it delivers then.
-/

namespace StoreAudit

open Audit

/-- Only one command looks objects up. -/
theorem Child.lookupMode?_eq_none {command : Bytes} {arguments : List Bytes}
    (other : command ≠ ascii "cat-file") : lookupMode? (command :: arguments) = none := by
  simp [lookupMode?, lookupArguments, other]

/-- What is found, if anything, leaves less than the bound. -/
def Lowers {σ : Type} (measure : σ → Nat) (bound : Nat) : Option (ScanItem × σ) → Prop
  | none => True
  | some (_, later) => measure later < bound

private theorem Lowers.mono {σ : Type} {measure : σ → Nat} {bound wider : Nat}
    {found : Option (ScanItem × σ)} (lowers : Lowers measure bound found) (le : bound ≤ wider) :
    Lowers measure wider found := by
  cases found with
  | none => trivial
  | some delivered => exact Nat.lt_of_lt_of_le lowers le

private theorem Lowers.map {σ τ : Type} {measure : σ → Nat} {other : τ → Nat} {bound : Nat}
    (change : σ → τ) (same : ∀ value, other (change value) = measure value)
    {found : Option (ScanItem × σ)} (lowers : Lowers measure bound found) :
    Lowers other bound (found.map fun (item, later) => (item, change later)) := by
  cases found with
  | none => trivial
  | some delivered => exact Nat.lt_of_le_of_lt (Nat.le_of_eq (same delivered.2)) lowers

private theorem HistoryScan.lowers_advance (scan : HistoryScan) (records : List Bytes) :
    Yields (scan.advance records)
      (Lowers (fun later => later.listing.records.length) records.length) := by
  induction records generalizing scan with
  | nil => exact (yields_any _).bind fun _ _ => (yields_any _).bind fun _ _ => yields_pure trivial
  | cons record rest ih =>
      unfold advance
      refine (yields_any _).bind fun _ _ => ?_
      have skip (later : HistoryScan) := (ih later).mono fun _ lowers =>
        lowers.mono (Nat.le_succ rest.length)
      cases candidate? scan.filter record with
      | none => exact skip scan
      | some candidate =>
          refine (yields_any _).bind fun step _ => ?_
          obtain ⟨found, later⟩ := step
          cases found with
          | none => exact skip later
          | some pointer => exact yields_pure (Nat.lt_succ_self rest.length)

private theorem StagedScan.lowers_advance (scan : StagedScan) (records : List Bytes) :
    Yields (scan.advance records)
      (Lowers (fun later => later.listing.records.length) records.length) := by
  induction records using List.twoStepInduction generalizing scan with
  | nil => exact (yields_any _).bind fun _ _ => (yields_any _).bind fun _ _ => yields_pure trivial
  | singleton record => exact (yields_any _).bind fun _ _ => yields_throw _ _
  | cons_cons record path rest ih _ =>
      unfold advance
      refine (yields_any _).bind fun _ _ => ?_
      have skip (later : StagedScan) := (ih later).mono fun _ lowers =>
        lowers.mono (Nat.le_add_right rest.length 2)
      cases StagedHeader.ofRecord? record with
      | none => exact yields_throw _ _
      | some header =>
          dsimp only
          split
          · refine (yields_any _).bind fun step _ => ?_
            obtain ⟨found, later⟩ := step
            cases found with
            | none => exact skip later
            | some pointer => exact yields_pure (Nat.lt_add_of_pos_right Nat.zero_lt_two)
          · exact skip scan

namespace TreeScan

/-- At least the number of results that a scan still has. -/
def bound (scan : TreeScan) : Nat :=
  scan.pending.length + boundOf scan.repository scan.listing.records

/-- Records are parsed one after the other, and the first that cannot be is the failure. -/
theorem parseEntries_cons (record : Bytes) (rest : List Bytes) :
    parseEntries (record :: rest) =
      match TreeEntry.ofRecord? record with
      | some entry => (parseEntries rest).map (entry :: ·)
      | none => .error (.unexpectedTreeRecord record) := by
  rw [parseEntries, List.mapM_cons, ← parseEntries]
  cases TreeEntry.ofRecord? record with
  | none => rfl
  | some entry => cases parseEntries rest <;> rfl

private theorem length_parseEntries {records : List Bytes} {entries : List TreeEntry}
    (parsed : parseEntries records = .ok entries) : entries.length = records.length := by
  induction records generalizing entries with
  | nil =>
      cases parsed
      rfl
  | cons record rest ih =>
      rw [parseEntries_cons] at parsed
      cases first : TreeEntry.ofRecord? record with
      | none =>
          rw [first] at parsed
          cases parsed
      | some entry =>
          rw [first] at parsed
          cases others : parseEntries rest with
          | error failure =>
              rw [others] at parsed
              cases parsed
          | ok more =>
              rw [others] at parsed
              cases parsed
              simp [ih others]

private theorem length_listTree (repository : Repository) (commit : Bytes) :
    Yields (listTree repository commit) fun entries =>
      entries.length = (repository.recordsOf (arguments commit) 0).length := by
  have listing : Child.lookupMode? ((arguments commit).map Bytes.beforeNul) = none :=
    Child.lookupMode?_eq_none (by decide)
  refine (RecordListing.yields_start 0 listing).bind fun given isOf => ?_
  have parsed : Yields (liftM (parseEntries given.records))
      fun entries => entries.length = given.records.length :=
    yields_liftExcept fun entries => length_parseEntries
  refine parsed.bind fun entries count => ?_
  exact (yields_any _).bind fun _ _ => yields_pure (isOf.records ▸ count)

/-- The later scan is of the same repository and has the same results pending. -/
def SameResults (scan later : TreeScan) : Prop :=
  later.repository = scan.repository ∧ later.pending = scan.pending

/-- To read attributes keeps what the scan has found. -/
theorem sameResults_readAttributes (scan : TreeScan) (entries : List TreeEntry) :
    Yields (scan.readAttributes entries) fun result => scan.SameResults result.2 := by
  refine .foldlM (fun _ (result : Attributes × TreeScan) => scan.SameResults result.2) ?_ ⟨rfl, rfl⟩
  intro entry rest result same
  exact (yields_any _).bind fun _ _ => yields_pure same

/-- To look an entry up keeps what the scan has found. -/
theorem sameResults_lookUp (scan : TreeScan) (entry : TreeEntry) :
    Yields (scan.lookUp entry) fun result => scan.SameResults result.2 := by
  unfold lookUp
  split
  · exact (yields_any _).bind fun _ _ => yields_pure ⟨rfl, rfl⟩
  · exact yields_pure ⟨rfl, rfl⟩

private theorem length_verdict (attributes : Attributes) (entry : TreeEntry)
    (found : Option FoundPointer) : (verdict attributes entry found).length ≤ 1 := by
  cases found with
  | some pointer => exact Nat.le_refl 1
  | none =>
      simp only [verdict]
      split <;> simp

private theorem length_pending_examine (attributes : Attributes) (scan : TreeScan)
    (entry : TreeEntry) : Yields (examine attributes scan entry) fun later =>
      later.repository = scan.repository ∧ later.pending.length ≤ scan.pending.length + 1 := by
  unfold examine
  dsimp only
  split
  · exact yields_pure ⟨rfl, Nat.le_succ _⟩
  · refine (sameResults_lookUp _ entry).bind fun (found, later) same => yields_pure ?_
    obtain ⟨repository, pending⟩ := same
    refine ⟨repository, ?_⟩
    have one := length_verdict attributes entry found
    change (later.pending ++ verdict attributes entry found).length ≤ _
    rw [pending, List.length_append]
    exact Nat.add_le_add_left one _

/-- The results of a tree are at most as many as its records. -/
theorem length_pending_scanCommit (scan : TreeScan) (commit : Bytes) (nothing : scan.pending = []) :
    Yields (scan.scanCommit commit) fun later =>
      later.repository = scan.repository ∧
        later.pending.length ≤ (scan.repository.recordsOf (arguments commit) 0).length := by
  refine (yields_any _).bind fun _ _ => ?_
  refine (length_listTree _ commit).bind fun entries count => ?_
  refine (scan.sameResults_readAttributes entries).bind fun (attributes, started) same => ?_
  have empty : started.pending = [] := same.2.trans nothing
  have loop : Yields (entries.foldlM (examine attributes) started : Audit TreeScan)
      fun later => later.repository = scan.repository ∧
        later.pending.length + ([] : List TreeEntry).length ≤ entries.length := by
    refine .foldlM (fun left (later : TreeScan) => later.repository = scan.repository ∧
      later.pending.length + left.length ≤ entries.length) ?_ ⟨same.1, ?_⟩
    · intro entry rest later holds
      refine (length_pending_examine attributes later entry).mono fun last next => ?_
      refine ⟨next.1.trans holds.1, ?_⟩
      have before : later.pending.length + (rest.length + 1) ≤ entries.length := holds.2
      have grown := next.2
      omega
    · simp [empty]
  refine loop.mono fun later holds => ⟨holds.1, ?_⟩
  rw [← count]
  exact holds.2

private theorem lowers_advance (scan : TreeScan) (records : List Bytes)
    (nothing : scan.pending = []) :
    Yields (scan.advance records) (Lowers bound (boundOf scan.repository records)) := by
  induction records generalizing scan with
  | nil => exact (yields_any _).bind fun _ _ => (yields_any _).bind fun _ _ => yields_pure trivial
  | cons record rest ih =>
      unfold advance
      refine (yields_any _).bind fun _ _ => ?_
      refine (scan.length_pending_scanCommit _ nothing).bind fun later limit => ?_
      obtain ⟨repository, count⟩ := limit
      rw [boundOf]
      cases pending : later.pending with
      | nil =>
          refine (ih later pending).mono fun _ lowers => lowers.mono ?_
          rw [repository]
          exact Nat.le_add_left _ _
      | cons item more =>
          refine yields_pure ?_
          rw [pending, List.length_cons] at count
          simp only [Lowers, bound, repository]
          omega

private theorem lowers_next (scan : TreeScan) : Yields scan.next (Lowers bound scan.bound) := by
  unfold next
  split
  · rename_i item more pending
    refine yields_pure ?_
    simp [Lowers, bound, pending]
  · rename_i pending
    refine (scan.lowers_advance _ pending).mono fun _ lowers => lowers.mono ?_
    exact Nat.le_add_left _ _

end TreeScan

namespace Section

private theorem bound_begin (part : Section) :
    Yields part.begin fun started => started.bound = part.bound := by
  have listing (first : Bytes) (rest : List Bytes) (other : first.beforeNul ≠ ascii "cat-file") :
      Child.lookupMode? ((first :: rest).map Bytes.beforeNul) = none :=
    Child.lookupMode?_eq_none other
  cases part with
  | history repository start stop filter =>
      refine .map (.bind (RecordListing.yields_start _ (listing _ _ (by decide)))
        fun given isOf => ?_)
      exact (yields_any _).bind fun _ _ => (yields_any _).bind fun _ _ =>
        yields_pure (congrArg List.length isOf.records)
  | staged repository commit filter =>
      refine .map (.bind (RecordListing.yields_start _ (listing _ _ (by decide)))
        fun given isOf => ?_)
      exact (yields_any _).bind fun _ _ => yields_pure (congrArg List.length isOf.records)
  | trees repository start stop filter =>
      refine .map (.bind (RecordListing.yields_start _ (listing _ _ (by decide)))
        fun given isOf => ?_)
      refine (yields_any _).bind fun _ _ => yields_pure ?_
      change 0 + TreeScan.boundOf repository _ = TreeScan.boundOf repository _
      rw [Nat.zero_add]
      exact congrArg (TreeScan.boundOf repository) isOf.records
  | historyScan _ | stagedScan _ | treeScan _ | listed _ _ => exact yields_pure rfl

private theorem lowers_pull (part : Section) : Yields part.pull (Lowers bound part.bound) := by
  cases part with
  | historyScan scan =>
      exact (scan.lowers_advance _).bind fun _ lowers =>
        yields_pure (lowers.map historyScan fun _ => rfl)
  | stagedScan scan =>
      exact (scan.lowers_advance _).bind fun _ lowers =>
        yields_pure (lowers.map stagedScan fun _ => rfl)
  | treeScan scan =>
      exact scan.lowers_next.bind fun _ lowers => yields_pure (lowers.map treeScan fun _ => rfl)
  | listed items failure =>
      cases items with
      | cons item rest => exact yields_pure (Nat.lt_succ_self _)
      | nil =>
          cases failure with
          | some failure => exact yields_throw _ _
          | none => exact yields_pure trivial
  | history _ _ _ _ | staged _ _ _ | trees _ _ _ _ => exact yields_pure trivial

private theorem lowers_next (part : Section) : Yields part.next (Lowers bound part.bound) :=
  part.bound_begin.bind fun started same => same ▸ started.lowers_pull

end Section

namespace Feed

private theorem lowers_next (feed : Feed) : Yields feed.next (Lowers bound feed.bound) := by
  induction feed with
  | nil => exact yields_pure trivial
  | cons part rest ih =>
      refine part.lowers_next.bind fun found lowers => ?_
      cases found with
      | none => exact ih.mono fun _ lowers => lowers.mono (by simp [bound])
      | some delivered =>
          refine yields_pure ?_
          simp only [Lowers, bound]
          exact Nat.add_lt_add_right lowers _

/-- Every item that a feed delivers lowers its bound. -/
theorem bound_of_next {feed rest : Feed} {session after : Session} {item : ScanItem}
    (delivered : feed.next session = (.ok (some (item, rest)), after)) : rest.bound < feed.bound :=
  feed.lowers_next _ _ _ delivered

/-- What a feed delivers in all: its items, the failure that follows them if there is one, and the
session it leaves behind. -/
structure Contents where
  items : List ScanItem
  failure : Option Failure
  after : Session

/-- What a feed delivers when nothing else happens in between. -/
def contents (feed : Feed) (session : Session) : Contents :=
  match delivered : feed.next session with
  | (.error failure, after) => ⟨[], some failure, after⟩
  | (.ok none, after) => ⟨[], none, after⟩
  | (.ok (some (item, rest)), after) =>
    have _ : rest.bound < feed.bound := bound_of_next delivered
    let more := contents rest after
    { more with items := item :: more.items }
termination_by feed.bound

variable {feed rest : Feed} {session after : Session} {item : ScanItem}

/-- A feed that fails at once holds no items. -/
theorem contents_of_error {failure : Failure}
    (result : feed.next session = (.error failure, after)) :
    feed.contents session = ⟨[], some failure, after⟩ := by
  rw [contents]
  split <;> rename_i shape <;> cases shape.symm.trans result
  rfl

/-- A feed that ends at once holds no items. -/
theorem contents_of_end (result : feed.next session = (.ok none, after)) :
    feed.contents session = ⟨[], none, after⟩ := by
  rw [contents]
  split <;> rename_i shape <;> cases shape.symm.trans result
  rfl

/-- A feed that gives an item holds it before what the rest holds. -/
theorem contents_of_item (result : feed.next session = (.ok (some (item, rest)), after)) :
    feed.contents session =
      { rest.contents after with items := item :: (rest.contents after).items } := by
  rw [contents]
  split <;> rename_i shape <;> cases shape.symm.trans result
  rfl

end Feed

end StoreAudit
