import StoreAudit.Proofs.Git.Reaping
import StoreAudit.Proofs.Scan.Feed

/-!
# Scans wait for their children

A scan reports its end only when each child that it started has been waited for and has ended well,
the listings among them as their arguments settle. So a feed that delivers all it has, without a
failure, leaves no child behind (`Feed.awaits_contents`): output that breaks off is not taken for
output that ends.
-/

namespace StoreAudit

open Audit

/-- What a pull leaves: one thing at the end, and another with an item. -/
def Leaves {σ : Type} (ended : Session → Prop) (goesOn : σ → Session → Prop) :
    Option (ScanItem × σ) → Session → Prop
  | none => ended
  | some (_, later) => goesOn later

private theorem Leaves.mono {σ τ : Type} {ended finished : Session → Prop}
    {goesOn : σ → Session → Prop}
    {further : τ → Session → Prop} {change : σ → τ} {found : Option (ScanItem × σ)}
    {session : Session} (leaves : Leaves ended goesOn found session)
    (ends : ended session → finished session)
    (continues : ∀ later, goesOn later session → further (change later) session) :
    Leaves finished further (found.map fun (item, later) => (item, change later)) session := by
  cases found with
  | none => exact ends leaves
  | some delivered => exact continues _ leaves

variable {base : List (Option Int)} {others : List Nat} {repository : Repository}
  {arguments : List Bytes}

namespace HistoryScan

/-- The scan lists by a call, and its co-processes can be asked. -/
structure IsOpen (repository : Repository) (arguments : List Bytes) (scan : HistoryScan) :
    Prop where
  listing : scan.listing.child.HasRun repository arguments
  headers : scan.headers.IsOpen
  contents : scan.contents.IsOpen

/-- The places of the children of a scan. -/
def places (scan : HistoryScan) : List Nat :=
  [scan.listing.child.index, scan.headers.child.index, scan.contents.child.index]

/-- The later scan has the same children. -/
structure Continues (scan later : HistoryScan) : Prop where
  listing : later.listing.child = scan.listing.child
  headers : scan.headers.Continues later.headers
  contents : scan.contents.Continues later.contents

private theorem Continues.trans {scan middle later : HistoryScan} (first : scan.Continues middle)
    (second : middle.Continues later) : scan.Continues later :=
  ⟨second.listing.trans first.listing, first.headers.trans second.headers,
    first.contents.trans second.contents⟩

private theorem Continues.isOpen {scan later : HistoryScan} (continues : scan.Continues later)
    (isOpen : scan.IsOpen repository arguments) : later.IsOpen repository arguments where
  listing := by
    rw [continues.listing]
    exact isOpen.listing
  headers := continues.headers.isOpen isOpen.headers
  contents := continues.contents.isOpen isOpen.contents

private theorem Continues.places {scan later : HistoryScan} (continues : scan.Continues later) :
    later.places = scan.places := by
  simp only [HistoryScan.places, continues.listing, continues.headers.child.index,
    continues.contents.child.index]

private theorem ensures_start (start stop : Bytes) (filter : PathFilter) :
    Ensures (Session.Awaits base others)
      (HistoryScan.start repository start stop filter) fun scan session =>
        scan.IsOpen repository (historyArguments true start stop) ∧
          session.Awaits base (scan.places ++ others) := by
  have listing :
      Child.lookupMode? ((historyArguments true start stop).map Bytes.beforeNul) = none :=
    Child.lookupMode?_eq_none (by decide)
  refine (RecordListing.ensures_start _ listing).bind fun listing => .of_fact fun isOf => ?_
  refine (Lookup.ensures_start _ _).bind fun headers => .of_fact fun headersOpen => ?_
  refine (Lookup.ensures_start _ _).bind fun contents => .of_fact fun contentsOpen => ?_
  refine ensures_pure fun session awaits => ⟨⟨isOf.hasRun, headersOpen, contentsOpen⟩, ?_⟩
  refine awaits.of_mem_iff fun place => ?_
  simp only [HistoryScan.places, List.mem_append, List.mem_cons, List.not_mem_nil]
  tauto

private theorem ensures_close {scan : HistoryScan} (isOpen : scan.IsOpen repository arguments) :
    Ensures (Session.Awaits base (scan.places ++ others)) scan.close fun _ session =>
      repository.EndsWell arguments ∧ session.Awaits base others := by
  refine (RecordListing.ensures_wait isOpen.listing).bind fun _ => .of_fact fun endsWell => ?_
  refine (Lookup.ensures_close isOpen.headers).bind fun _ => ?_
  exact (Lookup.ensures_close isOpen.contents).mono (fun _ => id) fun _ _ awaits =>
    ⟨endsWell, awaits⟩

private theorem ensures_lookUp (scan : HistoryScan) (oid name : Bytes) :
    Ensures (Session.Awaits base others) (scan.lookUp oid name) fun result session =>
      scan.Continues result.2 ∧ session.Awaits base others := by
  refine (scan.headers.ensures_get oid).bind fun (header, headers) => .of_fact fun asked => ?_
  dsimp only
  split
  · refine (scan.contents.ensures_get oid).bind fun (object, contents) => .of_fact fun read => ?_
    exact ensures_pure fun _ awaits => ⟨⟨rfl, asked, read⟩, awaits⟩
  · exact ensures_pure fun _ awaits => ⟨⟨rfl, asked, .refl _⟩, awaits⟩

private theorem ensures_advance {scan : HistoryScan} (isOpen : scan.IsOpen repository arguments)
    (records : List Bytes) :
    Ensures (Session.Awaits base (scan.places ++ others)) (scan.advance records)
      (Leaves (fun session => repository.EndsWell arguments ∧ session.Awaits base others)
        fun later session => scan.Continues later ∧
          session.Awaits base (later.places ++ others)) := by
  induction records generalizing scan with
  | nil =>
      refine (Ensures.of_sameChildren sameChildren_checkInterrupt).bind fun _ => ?_
      exact (ensures_close isOpen).bind fun _ => ensures_pure fun _ => id
  | cons record rest ih =>
      unfold advance
      refine (Ensures.of_sameChildren sameChildren_checkInterrupt).bind fun _ => ?_
      cases candidate? scan.filter record with
      | none => exact ih isOpen
      | some candidate =>
          refine (scan.ensures_lookUp _ _).bind fun result => .of_fact fun continues => ?_
          rcases result with ⟨_ | pointer, later⟩
          · have further := ih (continues.isOpen isOpen)
            rw [continues.places] at further
            refine further.mono (fun _ => id) fun found session leaves => ?_
            cases found with
            | none => exact leaves
            | some delivered => exact ⟨continues.trans leaves.1, leaves.2⟩
          · have reached : scan.Continues
                { later with listing := { later.listing with records := rest } } :=
              ⟨continues.listing, continues.headers, continues.contents⟩
            exact ensures_pure fun _ awaits => ⟨reached, reached.places ▸ awaits⟩

end HistoryScan

namespace StagedScan

/-- The scan lists by a call, and its co-process can be asked. -/
structure IsOpen (repository : Repository) (arguments : List Bytes) (scan : StagedScan) : Prop where
  listing : scan.listing.child.HasRun repository arguments
  contents : scan.contents.IsOpen

/-- The places of the children of a scan. -/
def places (scan : StagedScan) : List Nat :=
  [scan.listing.child.index, scan.contents.child.index]

/-- The later scan has the same children. -/
structure Continues (scan later : StagedScan) : Prop where
  listing : later.listing.child = scan.listing.child
  contents : scan.contents.Continues later.contents

private theorem Continues.trans {scan middle later : StagedScan} (first : scan.Continues middle)
    (second : middle.Continues later) : scan.Continues later :=
  ⟨second.listing.trans first.listing, first.contents.trans second.contents⟩

private theorem Continues.isOpen {scan later : StagedScan} (continues : scan.Continues later)
    (isOpen : scan.IsOpen repository arguments) : later.IsOpen repository arguments where
  listing := by
    rw [continues.listing]
    exact isOpen.listing
  contents := continues.contents.isOpen isOpen.contents

private theorem Continues.places {scan later : StagedScan} (continues : scan.Continues later) :
    later.places = scan.places := by
  simp only [StagedScan.places, continues.listing, continues.contents.child.index]

private theorem ensures_start (commit : Bytes) (filter : PathFilter) :
    Ensures (Session.Awaits base others) (StagedScan.start repository commit filter)
      fun scan session => scan.IsOpen repository (StagedScan.arguments commit) ∧
        session.Awaits base (scan.places ++ others) := by
  have listing : Child.lookupMode? ((StagedScan.arguments commit).map Bytes.beforeNul) = none :=
    Child.lookupMode?_eq_none (by decide)
  refine (RecordListing.ensures_start _ listing).bind fun listing => .of_fact fun isOf => ?_
  refine (Lookup.ensures_start _ _).bind fun contents => .of_fact fun contentsOpen => ?_
  refine ensures_pure fun session awaits => ⟨⟨isOf.hasRun, contentsOpen⟩, ?_⟩
  refine awaits.of_mem_iff fun place => ?_
  simp only [StagedScan.places, List.mem_append, List.mem_cons, List.not_mem_nil]
  tauto

private theorem ensures_close {scan : StagedScan} (isOpen : scan.IsOpen repository arguments) :
    Ensures (Session.Awaits base (scan.places ++ others)) scan.close fun _ session =>
      repository.EndsWell arguments ∧ session.Awaits base others := by
  refine (RecordListing.ensures_wait isOpen.listing).bind fun _ => .of_fact fun endsWell => ?_
  exact (Lookup.ensures_close isOpen.contents).mono (fun _ => id) fun _ _ awaits =>
    ⟨endsWell, awaits⟩

private theorem ensures_lookUp (scan : StagedScan) (oid path : Bytes) :
    Ensures (Session.Awaits base others) (scan.lookUp oid path) fun result session =>
      scan.Continues result.2 ∧ session.Awaits base others := by
  refine (scan.contents.ensures_get oid).bind fun (object, contents) => .of_fact fun read => ?_
  exact ensures_pure fun _ awaits => ⟨⟨rfl, read⟩, awaits⟩

private theorem ensures_advance {scan : StagedScan} (isOpen : scan.IsOpen repository arguments)
    (records : List Bytes) :
    Ensures (Session.Awaits base (scan.places ++ others)) (scan.advance records)
      (Leaves (fun session => repository.EndsWell arguments ∧ session.Awaits base others)
        fun later session => scan.Continues later ∧
          session.Awaits base (later.places ++ others)) := by
  induction records using List.twoStepInduction generalizing scan with
  | nil =>
      refine (Ensures.of_sameChildren sameChildren_checkInterrupt).bind fun _ => ?_
      exact (ensures_close isOpen).bind fun _ => ensures_pure fun _ => id
  | singleton record =>
      exact (Ensures.of_sameChildren sameChildren_checkInterrupt).bind fun _ => ensures_throw _
  | cons_cons record path rest ih _ =>
      unfold advance
      refine (Ensures.of_sameChildren sameChildren_checkInterrupt).bind fun _ => ?_
      cases StagedHeader.ofRecord? record with
      | none => exact ensures_throw _
      | some header =>
          dsimp only
          split
          · refine (scan.ensures_lookUp _ _).bind fun result => .of_fact fun continues => ?_
            rcases result with ⟨_ | pointer, later⟩
            · have further := ih (continues.isOpen isOpen)
              rw [continues.places] at further
              refine further.mono (fun _ => id) fun found session leaves => ?_
              cases found with
              | none => exact leaves
              | some delivered => exact ⟨continues.trans leaves.1, leaves.2⟩
            · have reached : scan.Continues
                  { later with listing := { later.listing with records := rest } } :=
                ⟨continues.listing, continues.contents⟩
              exact ensures_pure fun _ awaits => ⟨reached, reached.places ▸ awaits⟩
          · exact ih isOpen

end StagedScan

namespace TreeScan

/-- The scan lists by a call, and its co-process can be asked. -/
structure IsOpen (repository : Repository) (arguments : List Bytes) (scan : TreeScan) : Prop where
  scans : scan.repository = repository
  listing : scan.listing.child.HasRun repository arguments
  contents : scan.contents.IsOpen

/-- The places of the children of a scan. -/
def places (scan : TreeScan) : List Nat := [scan.listing.child.index, scan.contents.child.index]

/-- The calls that list the trees of the commits of records. -/
def calls (records : List Bytes) : List (List Bytes) :=
  records.map fun record => TreeScan.arguments record.trim

/-- The later scan has the same children. -/
structure Continues (scan later : TreeScan) : Prop where
  repository : later.repository = scan.repository
  listing : later.listing.child = scan.listing.child
  contents : scan.contents.Continues later.contents

private theorem Continues.refl (scan : TreeScan) : scan.Continues scan := ⟨rfl, rfl, .refl _⟩

private theorem Continues.trans {scan middle later : TreeScan} (first : scan.Continues middle)
    (second : middle.Continues later) : scan.Continues later :=
  ⟨second.repository.trans first.repository, second.listing.trans first.listing,
    first.contents.trans second.contents⟩

private theorem Continues.isOpen {scan later : TreeScan} (continues : scan.Continues later)
    (isOpen : scan.IsOpen repository arguments) : later.IsOpen repository arguments where
  scans := continues.repository.trans isOpen.scans
  listing := by
    rw [continues.listing]
    exact isOpen.listing
  contents := continues.contents.isOpen isOpen.contents

private theorem Continues.places {scan later : TreeScan} (continues : scan.Continues later) :
    later.places = scan.places := by
  simp only [TreeScan.places, continues.listing, continues.contents.child.index]

private theorem ensures_start (start stop : Bytes) (filter : PathFilter) :
    Ensures (Session.Awaits base others)
      (TreeScan.start repository start stop filter) fun scan session =>
        scan.IsOpen repository (historyArguments false start stop) ∧
          session.Awaits base (scan.places ++ others) := by
  have listing :
      Child.lookupMode? ((historyArguments false start stop).map Bytes.beforeNul) = none :=
    Child.lookupMode?_eq_none (by decide)
  refine (RecordListing.ensures_start _ listing).bind fun listing => .of_fact fun isOf => ?_
  refine (Lookup.ensures_start _ _).bind fun contents => .of_fact fun contentsOpen => ?_
  refine ensures_pure fun session awaits => ⟨⟨rfl, isOf.hasRun, contentsOpen⟩, ?_⟩
  refine awaits.of_mem_iff fun place => ?_
  simp only [TreeScan.places, List.mem_append, List.mem_cons, List.not_mem_nil]
  tauto

private theorem records_start (start stop : Bytes) (filter : PathFilter) :
    Yields (TreeScan.start repository start stop filter) fun scan =>
      scan.listing.records =
        repository.recordsOf (historyArguments false start stop) Ascii.newline := by
  have listing :
      Child.lookupMode? ((historyArguments false start stop).map Bytes.beforeNul) = none :=
    Child.lookupMode?_eq_none (by decide)
  refine (RecordListing.yields_start _ listing).bind fun given isOf => ?_
  exact (yields_any _).bind fun _ _ => yields_pure isOf.records

private theorem ensures_close {scan : TreeScan} (isOpen : scan.IsOpen repository arguments) :
    Ensures (Session.Awaits base (scan.places ++ others)) scan.close fun _ session =>
      repository.EndsWell arguments ∧ session.Awaits base others := by
  refine (RecordListing.ensures_wait isOpen.listing).bind fun _ => .of_fact fun endsWell => ?_
  exact (Lookup.ensures_close isOpen.contents).mono (fun _ => id) fun _ _ awaits =>
    ⟨endsWell, awaits⟩

/-- The process that lists a tree is waited for before the tree is looked at. -/
theorem ensures_listTree (commit : Bytes) :
    Ensures (Session.Awaits base others) (listTree repository commit) fun _ session =>
      repository.EndsWell (TreeScan.arguments commit) ∧ session.Awaits base others := by
  have listing : Child.lookupMode? ((TreeScan.arguments commit).map Bytes.beforeNul) = none :=
    Child.lookupMode?_eq_none (by decide)
  refine (RecordListing.ensures_start 0 listing).bind fun given => .of_fact fun isOf => ?_
  refine (Ensures.of_sameChildren (within_liftExcept _)).bind fun entries => ?_
  exact (RecordListing.ensures_wait isOf.hasRun).bind fun _ => ensures_pure fun _ => id

/-- The scan goes on from another one, with nothing more to wait for than was awaited. -/
def GoesOn (base : List (Option Int)) (others : List Nat) (scan later : TreeScan)
    (session : Session) : Prop :=
  scan.Continues later ∧ session.Awaits base others

private theorem ensures_readAttributes (scan : TreeScan) (entries : List TreeEntry) :
    Ensures (Session.Awaits base others) (scan.readAttributes entries) fun result =>
      scan.GoesOn base others result.2 := by
  refine (Ensures.foldlM (fun result => scan.GoesOn base others result.2)
    (fun result entry => .of_fact fun continues => ?_) _ _).mono
      (fun _ awaits => ⟨.refl scan, awaits⟩) fun _ _ => id
  refine (result.2.contents.ensures_get entry.oid).bind fun _ => .of_fact fun read => ?_
  exact ensures_pure fun _ awaits =>
    ⟨⟨continues.repository, continues.listing, continues.contents.trans read⟩, awaits⟩

private theorem ensures_lookUp (scan : TreeScan) (entry : TreeEntry) :
    Ensures (Session.Awaits base others) (scan.lookUp entry) fun result =>
      scan.GoesOn base others result.2 := by
  unfold lookUp
  split
  · refine (scan.contents.ensures_get entry.oid).bind fun _ => .of_fact fun read => ?_
    exact ensures_pure fun _ awaits => ⟨⟨rfl, rfl, read⟩, awaits⟩
  · exact ensures_pure fun _ awaits => ⟨.refl scan, awaits⟩

private theorem ensures_examine (attributes : Attributes) (scan : TreeScan) (entry : TreeEntry) :
    Ensures (Session.Awaits base others) (examine attributes scan entry)
      (scan.GoesOn base others) := by
  unfold examine
  dsimp only
  split
  · exact ensures_pure fun _ awaits => ⟨.refl scan, awaits⟩
  · refine (ensures_lookUp _ entry).bind fun (found, later) => .of_fact fun continues => ?_
    exact ensures_pure fun _ awaits =>
      ⟨⟨continues.repository, continues.listing, continues.contents⟩, awaits⟩

private theorem ensures_scanCommit {scan : TreeScan} (scans : scan.repository = repository)
    (commit : Bytes) :
    Ensures (Session.Awaits base others) (scan.scanCommit commit) fun later session =>
      repository.EndsWell (TreeScan.arguments commit) ∧ scan.GoesOn base others later session := by
  subst scans
  refine (Ensures.of_sameChildren (sameChildren_log _ _).lift).bind fun _ => ?_
  refine (ensures_listTree commit).bind fun entries => .of_fact fun endsWell => ?_
  refine (scan.ensures_readAttributes entries).bind fun (attributes, started) => ?_
  refine (Ensures.foldlM (scan.GoesOn base others)
    (fun later entry => .of_fact fun continues => ?_) _ _).mono
      (fun _ => id) fun _ _ goesOn => ⟨endsWell, goesOn⟩
  exact (ensures_examine attributes later entry).mono (fun _ => id) fun _ _ ⟨further, awaits⟩ =>
    ⟨continues.trans further, awaits⟩

private theorem ensures_advance {scan : TreeScan} (isOpen : scan.IsOpen repository arguments)
    (records : List Bytes) :
    Ensures (Session.Awaits base (scan.places ++ others)) (scan.advance records)
      (Leaves
        (fun session => repository.EndsWell arguments ∧
          (∀ call ∈ calls records, repository.EndsWell call) ∧ session.Awaits base others)
        fun later session => scan.Continues later ∧
          (∀ call ∈ calls records, repository.EndsWell call ∨ call ∈ calls later.listing.records) ∧
          session.Awaits base (later.places ++ others)) := by
  induction records generalizing scan with
  | nil =>
      refine (Ensures.of_sameChildren sameChildren_checkInterrupt).bind fun _ => ?_
      refine (ensures_close isOpen).bind fun _ => ensures_pure fun _ ended => ?_
      exact ⟨ended.1, fun _ impossible => absurd impossible List.not_mem_nil, ended.2⟩
  | cons record rest ih =>
      unfold advance
      refine (Ensures.of_sameChildren sameChildren_checkInterrupt).bind fun _ => ?_
      refine (ensures_scanCommit isOpen.scans _).bind fun later => .of_fact fun endsWell => ?_
      refine .of_fact fun continues => ?_
      cases later.pending with
      | nil =>
          have further := ih (continues.isOpen isOpen)
          rw [continues.places] at further
          refine further.mono (fun _ => id) fun found session leaves => ?_
          cases found with
          | none =>
              obtain ⟨listed, trees, awaits⟩ := leaves
              exact ⟨listed, List.forall_mem_cons.mpr ⟨endsWell, trees⟩, awaits⟩
          | some delivered =>
              obtain ⟨again, trees, awaits⟩ := leaves
              exact ⟨continues.trans again, List.forall_mem_cons.mpr ⟨.inl endsWell, trees⟩, awaits⟩
      | cons item more =>
          have reached : scan.Continues
              { later with pending := more, listing := { later.listing with records := rest } } :=
            ⟨continues.repository, continues.listing, continues.contents⟩
          refine ensures_pure fun _ awaits => ⟨reached, ?_, reached.places ▸ awaits⟩
          exact List.forall_mem_cons.mpr ⟨.inl endsWell, fun _ => .inr⟩

end TreeScan

namespace Section

/-- The section waits for the children at some places, and comes to its end only if some calls of
the repository end well. -/
inductive Holding (repository : Repository) : Section → List Nat → List (List Bytes) → Prop
  | history {start stop : Bytes} {filter : PathFilter} :
      Holding repository (.history repository start stop filter) []
        [historyArguments true start stop]
  | staged {commit : Bytes} {filter : PathFilter} :
      Holding repository (.staged repository commit filter) [] [StagedScan.arguments commit]
  | trees {start stop : Bytes} {filter : PathFilter} :
      Holding repository (.trees repository start stop filter) []
        (historyArguments false start stop :: TreeScan.calls
          (repository.recordsOf (historyArguments false start stop) Ascii.newline))
  | historyScan {scan : HistoryScan} {call : List Bytes} : scan.IsOpen repository call →
      Holding repository (.historyScan scan) scan.places [call]
  | stagedScan {scan : StagedScan} {call : List Bytes} : scan.IsOpen repository call →
      Holding repository (.stagedScan scan) scan.places [call]
  | treeScan {scan : TreeScan} {call : List Bytes} : scan.IsOpen repository call →
      Holding repository (.treeScan scan) scan.places
        (call :: TreeScan.calls scan.listing.records)

/-- What a section ensures when it is asked for an item: at its end, that its calls have ended well
and it has left no child; with an item, what it still waits for. -/
def Ending (repository : Repository) (calls : List (List Bytes)) (base : List (Option Int))
    (others : List Nat) : Option (ScanItem × Section) → Session → Prop :=
  Leaves (fun session =>
      (∀ call ∈ calls, repository.EndsWell call) ∧ session.Awaits base others)
    fun later session => ∃ places rest, later.Holding repository places rest ∧
      (∀ call ∈ calls, repository.EndsWell call ∨ call ∈ rest) ∧
      session.Awaits base (places ++ others)

variable {calls : List (List Bytes)} {places : List Nat}

private theorem ensures_historyScan {scan : HistoryScan} {call : List Bytes}
    (isOpen : scan.IsOpen repository call) :
    Ensures (Session.Awaits base (scan.places ++ others)) (historyScan scan).pull
      (Ending repository [call] base others) := by
  refine (HistoryScan.ensures_advance isOpen _).bind fun found => ensures_pure fun _ leaves => ?_
  refine leaves.mono (fun ended => ⟨List.forall_mem_singleton.mpr ended.1, ended.2⟩) ?_
  intro later ⟨continues, awaits⟩
  exact ⟨_, _, .historyScan (continues.isOpen isOpen), fun _ => .inr, awaits⟩

private theorem ensures_stagedScan {scan : StagedScan} {call : List Bytes}
    (isOpen : scan.IsOpen repository call) :
    Ensures (Session.Awaits base (scan.places ++ others)) (stagedScan scan).pull
      (Ending repository [call] base others) := by
  refine (StagedScan.ensures_advance isOpen _).bind fun found => ensures_pure fun _ leaves => ?_
  refine leaves.mono (fun ended => ⟨List.forall_mem_singleton.mpr ended.1, ended.2⟩) ?_
  intro later ⟨continues, awaits⟩
  exact ⟨_, _, .stagedScan (continues.isOpen isOpen), fun _ => .inr, awaits⟩

private theorem ensures_treeScan {scan : TreeScan} {call : List Bytes}
    (isOpen : scan.IsOpen repository call) :
    Ensures (Session.Awaits base (scan.places ++ others)) (treeScan scan).pull
      (Ending repository (call :: TreeScan.calls scan.listing.records) base others) := by
  have next : Ensures (Session.Awaits base (scan.places ++ others)) scan.next
      (Leaves
        (fun session => repository.EndsWell call ∧
          (∀ call ∈ TreeScan.calls scan.listing.records, repository.EndsWell call) ∧
          session.Awaits base others)
        fun later session => scan.Continues later ∧
          (∀ call ∈ TreeScan.calls scan.listing.records,
            repository.EndsWell call ∨ call ∈ TreeScan.calls later.listing.records) ∧
          session.Awaits base (later.places ++ others)) := by
    unfold TreeScan.next
    split
    · exact ensures_pure fun _ awaits => ⟨⟨rfl, rfl, .refl _⟩, fun _ => .inr, awaits⟩
    · exact TreeScan.ensures_advance isOpen _
  refine next.bind fun found => ensures_pure fun _ leaves => ?_
  refine leaves.mono (fun ended => ?_) ?_
  · obtain ⟨listed, shown, awaits⟩ := ended
    exact ⟨List.forall_mem_cons.mpr ⟨listed, shown⟩, awaits⟩
  · intro later ⟨continues, shown, awaits⟩
    refine ⟨_, _, .treeScan (continues.isOpen isOpen), ?_, awaits⟩
    refine List.forall_mem_cons.mpr ⟨.inr List.mem_cons_self, fun call member => ?_⟩
    exact (shown call member).imp_right (List.mem_cons_of_mem _)

private theorem ensures_next {part : Section} (holding : part.Holding repository places calls) :
    Ensures (Session.Awaits base (places ++ others)) part.next
      (Ending repository calls base others) := by
  cases holding with
  | historyScan isOpen => exact ensures_historyScan isOpen
  | stagedScan isOpen => exact ensures_stagedScan isOpen
  | treeScan isOpen => exact ensures_treeScan isOpen
  | @history start stop filter =>
      have begun : Section.next (.history repository start stop filter) =
          HistoryScan.start repository start stop filter >>= fun scan => (historyScan scan).pull :=
        bind_map_left _ _ _
      rw [begun]
      exact (HistoryScan.ensures_start start stop filter).bind fun scan =>
        .of_fact fun isOpen => ensures_historyScan isOpen
  | @staged commit filter =>
      have begun : Section.next (.staged repository commit filter) =
          StagedScan.start repository commit filter >>= fun scan => (stagedScan scan).pull :=
        bind_map_left _ _ _
      rw [begun]
      exact (StagedScan.ensures_start commit filter).bind fun scan =>
        .of_fact fun isOpen => ensures_stagedScan isOpen
  | @trees start stop filter =>
      have begun : Section.next (.trees repository start stop filter) =
          TreeScan.start repository start stop filter >>= fun scan => (treeScan scan).pull :=
        bind_map_left _ _ _
      rw [begun]
      refine ((TreeScan.ensures_start start stop filter).and_yields
        (TreeScan.records_start start stop filter)).bind fun scan => .of_fact fun records => ?_
      rw [← records]
      exact .of_fact fun isOpen => ensures_treeScan isOpen

end Section

namespace Feed

/-- What the sections of a feed hold, one after the other. -/
inductive Holding (repository : Repository) : Feed → List Nat → List (List Bytes) → Prop
  | nil : Holding repository [] [] []
  | cons {part : Section} {rest : Feed} {places more : List Nat}
      {calls further : List (List Bytes)} :
      part.Holding repository places calls → Holding repository rest more further →
      Holding repository (part :: rest) (places ++ more) (calls ++ further)

/-- What a feed ensures when it is asked for an item: at its end, that its calls have ended well and
it has left no child; with an item, what it still waits for. -/
def Ending (repository : Repository) (calls : List (List Bytes)) (base : List (Option Int)) :
    Option (ScanItem × Feed) → Session → Prop :=
  Leaves (fun session => (∀ call ∈ calls, repository.EndsWell call) ∧ session.Awaits base [])
    fun later session => ∃ places rest, Holding repository later places rest ∧
      (∀ call ∈ calls, repository.EndsWell call ∨ call ∈ rest) ∧ session.Awaits base places

variable {feed : Feed} {places : List Nat} {calls : List (List Bytes)}

private theorem ensures_next (holding : Holding repository feed places calls) :
    Ensures (Session.Awaits base places) feed.next (Ending repository calls base) := by
  induction holding with
  | nil =>
      exact ensures_pure fun _ awaits =>
        ⟨fun _ impossible => absurd impossible List.not_mem_nil, awaits⟩
  | @cons part rest places more calls further first others ih =>
      refine (Section.ensures_next first).bind fun found => ?_
      rcases found with _ | ⟨item, later⟩
      · refine .of_fact fun endWell => ih.mono (fun _ => id) fun found session leaves => ?_
        cases found with
        | none => exact ⟨List.forall_mem_append.mpr ⟨endWell, leaves.1⟩, leaves.2⟩
        | some delivered =>
            obtain ⟨held, left, holds, owed, awaits⟩ := leaves
            exact ⟨held, left, holds,
              List.forall_mem_append.mpr ⟨fun call member => .inl (endWell call member), owed⟩,
              awaits⟩
      · refine ensures_pure fun session leaves => ?_
        obtain ⟨held, left, holds, owed, awaits⟩ := leaves
        refine ⟨_, _, .cons holds others, List.forall_mem_append.mpr ⟨?_, ?_⟩, awaits⟩
        · exact fun call member => (owed call member).imp_right (List.mem_append_left _)
        · exact fun call member => .inr (List.mem_append_right _ member)

/-- **A feed that has delivered all without a failure** has left no child behind, and the calls that
it depends on have ended well. -/
theorem awaits_contents (holding : Holding repository feed places calls) {session : Session}
    (awaits : session.Awaits base places) (ended : (feed.contents session).failure = none) :
    (∀ call ∈ calls, repository.EndsWell call) ∧
      (feed.contents session).after.Awaits base [] := by
  induction bound : feed.bound using Nat.strongRecOn generalizing feed places calls session with
  | ind bound ih =>
      subst bound
      have ensures : Ensures (Session.Awaits base places) feed.next
          (Ending repository calls base) := ensures_next holding
      rcases shape : feed.next session with ⟨failure | _ | ⟨item, rest⟩, after⟩
      · rw [contents_of_error shape] at ended
        cases ended
      · rw [contents_of_end shape]
        exact ensures _ _ _ awaits shape
      · obtain ⟨held, left, holds, owed, awaitsLater⟩ := ensures _ _ _ awaits shape
        rw [contents_of_item shape] at ended ⊢
        obtain ⟨endWell, settled⟩ := ih rest.bound (bound_of_next shape) holds awaitsLater ended rfl
        exact ⟨fun call member => (owed call member).elim id (endWell call), settled⟩

end Feed

end StoreAudit
