import StoreAudit.Digest.Basic
import StoreAudit.Failure.Basic

/-!
# Reading digests

A text that should be the text form of a digest, and the failure when it is not.
-/

namespace StoreAudit.Digest

/-- The digest that a text names. -/
def parse (text : Bytes) : Except Failure Digest :=
  match ofText? text with
  | some digest => .ok digest
  | none => .error (.invalidDigest text)

end StoreAudit.Digest
