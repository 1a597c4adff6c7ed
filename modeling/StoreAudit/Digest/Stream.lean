import StoreAudit.Digest.Basic
import StoreAudit.Failure.Errno

/-!
# Digests of what is read

A descriptor is read with one call after the other until a call gives no bytes, and how many bytes a
call gives is up to the system. A call that was interrupted gave nothing and is made again; any
other error ends the reading.
-/

namespace StoreAudit

/-- What one read gives: bytes, none of them at the end, or an error. -/
abbrev ReadResult := Except Errno Bytes

namespace ReadResult

/-- How many bytes one read gives at most. -/
def limit : Nat := 256 * 1024

/-- What reads of a content give from a position on if each of them gives as much as it can. -/
def ofContent (content : Bytes) (position : Nat) : List ReadResult :=
  if position < content.length then
    let count := min limit (content.length - position)
    .ok ((content.drop position).take count) :: ofContent content (position + count)
  else [.ok []]
termination_by content.length - position
decreasing_by
  have advanced : 0 < min limit (content.length - position) :=
    Nat.lt_min.mpr ⟨by decide, by omega⟩
  omega

end ReadResult

/-- What the caller of a hash holds: a digest and, if it wants to know how many bytes were read, a
number. -/
structure HashResult where
  digest : Digest := .zero
  bytesRead : Option Nat := none
  deriving DecidableEq

namespace Digest

/-- The loop over the reads: the digest of all that they give, and the number of its bytes, after
what has been read so far. -/
def readAll (state : Sha256) (total : Nat) : List ReadResult → Except Errno (Digest × Nat)
  | [] | .ok [] :: _ => .ok (⟨state.finish.toBytes, rfl⟩, total)
  | .ok piece :: more => readAll (state.absorb piece) (total + piece.length) more
  | .error errno :: more => if errno = .interrupted then readAll state total more else .error errno

end Digest

namespace HashResult

/-- The status of a hash, which is zero or the negative number of an error, and what its caller
holds from then on. -/
def receive (held : HashResult) : Except Errno (Digest × Nat) → Int × HashResult
  | .ok (digest, total) => (0, ⟨digest, held.bytesRead.map fun _ => total⟩)
  | .error errno => (-errno.number, held)

/-- What the caller holds after the reads. -/
def hashReads (held : HashResult) (results : List ReadResult) : Int × HashResult :=
  held.receive (Digest.readAll .empty 0 results)

end HashResult

end StoreAudit
