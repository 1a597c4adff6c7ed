import StoreAudit.Digest.Stream

/-!
# Hashing what is read

How many bytes each read gives is up to the system, and so is which reads are interrupted or fail
(`Reads`). None of this shows in a hash: what is read to the end has the digest of the content from
the offset on, as if it had been hashed at once, and an error leaves the caller with what it held
before (`HashResult.hashReads_of_reads`).
-/

namespace StoreAudit

namespace Digest

private theorem foldl_absorb (state : Sha256) (pieces : List Bytes) :
    pieces.foldl Sha256.absorb state = state.absorb pieces.flatten := by
  induction pieces generalizing state with
  | nil => rfl
  | cons piece rest ih =>
      rw [List.foldl_cons, ih, List.flatten_cons, Sha256.absorb_append]

/-- A reading that was stopped has no digest. -/
theorem ofReading_of_failure {ε : Type} {reading : Reading ε} {failure : ε}
    (stopped : reading.failure = some failure) : ofReading reading = .error failure := by
  rw [ofReading, stopped]

/-- What is read to its end has the digest of all that was read, in however many pieces. -/
theorem ofReading_of_end {ε : Type} {reading : Reading ε} (ended : reading.failure = none) :
    ofReading reading =
      .ok (ofContent reading.pieces.flatten, reading.pieces.flatten.length) := by
  simp only [ofReading, ended, foldl_absorb, ofContent, Sha256.hash]

variable (state : Sha256) (total : Nat)

private theorem readAll_end (more : List ReadResult) :
    readAll state total (.ok [] :: more) = .ok (⟨state.finish.toBytes, rfl⟩, total) := by
  rw [readAll]

private theorem readAll_piece {piece : Bytes} (nonempty : piece ≠ []) (more : List ReadResult) :
    readAll state total (.ok piece :: more) =
      readAll (state.absorb piece) (total + piece.length) more := by
  cases piece with
  | nil => exact absurd rfl nonempty
  | cons byte rest =>
      rw [readAll]
      exact nofun

private theorem readAll_interrupted (more : List ReadResult) :
    readAll state total (.error .interrupted :: more) = readAll state total more := by
  rw [readAll, if_pos rfl]

private theorem readAll_error {errno : Errno} (final : errno ≠ .interrupted)
    (more : List ReadResult) : readAll state total (.error errno :: more) = .error errno := by
  rw [readAll, if_neg final]

end Digest

/-- What reads of a content from a position on can give, up to its end or up to an error. -/
inductive Reads (content : Bytes) : Nat → Option Errno → List ReadResult → Prop
  | ended {position : Nat} (past : content.length ≤ position) :
      Reads content position none [.ok []]
  | gave {position count : Nat} {ending : Option Errno} {more : List ReadResult}
      (any : 0 < count) (fits : position + count ≤ content.length)
      (further : Reads content (position + count) ending more) :
      Reads content position ending (.ok ((content.drop position).take count) :: more)
  | interrupted {position : Nat} {ending : Option Errno} {more : List ReadResult}
      (further : Reads content position ending more) :
      Reads content position ending (.error .interrupted :: more)
  | failed {position : Nat} {errno : Errno} (final : errno ≠ .interrupted) :
      Reads content position (some errno) [.error errno]

namespace Reads

variable {content : Bytes} {position : Nat}

private theorem length_take_drop {count : Nat} (fits : position + count ≤ content.length) :
    ((content.drop position).take count).length = count := by
  rw [List.length_take, List.length_drop]
  omega

/-- The loop goes on from any state that it may be in. -/
theorem readAll_eq {ending : Option Errno} {results : List ReadResult}
    (reads : Reads content position ending results) (state : Sha256) (total : Nat) :
    Digest.readAll state total results =
      ending.elim
        (.ok (⟨(state.absorb (content.drop position)).finish.toBytes, rfl⟩,
          total + (content.drop position).length))
        .error := by
  induction reads generalizing state total with
  | ended past => rw [Digest.readAll_end, List.drop_eq_nil_of_le past]; rfl
  | @gave position count ending more any fits further ih =>
      have length := length_take_drop fits
      have nonempty : (content.drop position).take count ≠ [] := by
        rw [← List.length_pos_iff, length]
        exact any
      have whole : (content.drop position).take count ++ content.drop (position + count) =
          content.drop position := by
        rw [← List.drop_drop, List.take_append_drop]
      rw [Digest.readAll_piece state total nonempty, ih, ← Sha256.absorb_append, whole,
        Nat.add_assoc, ← List.length_append, whole]
  | interrupted further ih => rw [Digest.readAll_interrupted, ih]
  | failed final => exact Digest.readAll_error state total final []

end Reads

namespace HashResult

/-- **Hashing what is read is hashing what is there.** However the reads cut the content from a
position on, its digest and its length are what the caller holds at the end. If a read fails, the
caller holds what it held before, however much was read. -/
theorem hashReads_of_reads {content : Bytes} {position : Nat} {ending : Option Errno}
    {results : List ReadResult} (reads : Reads content position ending results)
    (held : HashResult) :
    held.hashReads results =
      ending.elim
        (0, { digest := .ofContent (content.drop position)
              bytesRead := held.bytesRead.map fun _ => (content.drop position).length })
        fun errno => (-errno.number, held) := by
  rw [hashReads, reads.readAll_eq]
  cases ending with
  | none =>
      simp only [Option.elim_none, receive, Nat.zero_add]
      rfl
  | some errno => rfl

/-- One byte, an interruption, and the other bytes in two parts. -/
def sampleReads : List ReadResult :=
  [.ok [3], .error .interrupted, .ok [4, 5], .ok [6], .ok []]

/-- Reads in three pieces with an interruption between them, a read that fails, and an empty rest.
-/
theorem hashReads_of_three_pieces :
    let held : HashResult := { bytesRead := some 7 }
    held.hashReads sampleReads = (0, ⟨.ofContent [3, 4, 5, 6], some 4⟩) ∧
    held.hashReads [.ok [3], .error ⟨5⟩] = (-5, held) ∧
    held.hashReads [.ok []] = (0, ⟨.ofContent [], some 0⟩) := by
  intro held
  have parts : Reads [1, 2, 3, 4, 5, 6] 2 none sampleReads :=
    @Reads.gave _ 2 1 none _ (by decide) (by decide) <| .interrupted <|
      @Reads.gave _ 3 2 none _ (by decide) (by decide) <|
        @Reads.gave _ 5 1 none _ (by decide) (by decide) <| .ended (by decide)
  have stopped : Reads [1, 2, 3, 4, 5, 6] 2 (some ⟨5⟩) [.ok [3], .error ⟨5⟩] :=
    @Reads.gave _ 2 1 _ _ (by decide) (by decide) <| .failed (by decide)
  have past : Reads [1, 2, 3, 4, 5, 6] 9 none [.ok []] := .ended (by decide)
  exact ⟨hashReads_of_reads parts held, hashReads_of_reads stopped held,
    hashReads_of_reads past held⟩

end HashResult

end StoreAudit
