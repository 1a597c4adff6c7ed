import StoreAudit.Store.Basic

/-!
# The store lock

The lock is a link in the store whose target is the number of the process that holds it. Making a
link fails if the name is taken, so two processes cannot hold the lock at once.
-/

namespace StoreAudit.Store

/-- How much of the owner of a taken lock is shown. -/
def maxOwnerLength : Nat := 63

/-- Who holds a lock, as far as the lock says it. -/
def ownerOf (files : FileTree) (lockPath : Bytes) : Bytes :=
  ((files.readLink? lockPath).getD []).take maxOwnerLength

/-- Takes the lock and returns its path; a store that is not there needs none. -/
def lock (store : Store) : Audit (Option Bytes) := do
  let session ← get
  if session.files.isDirectory store.root then
    match ← Audit.attempt (.makeLink (Decimal.ofNat session.pid) store.lockPath) with
    | .ok () =>
      Audit.trace (ascii "locked " ++ store.lockPath.beforeNul)
      pure (some store.lockPath)
    | .error errno =>
      if errno = .alreadyExists then
        throw (.locked store.root (ownerOf session.files store.lockPath) store.lockPath)
      else throw (.inCall (ascii "symlink(" ++ store.lockPath ++ ascii ")") errno)
  else pure none

/-- Gives a lock back; one that cannot be removed is only reported. -/
def release (lockPath : Bytes) : StateM Session Unit := do
  match ← Audit.attempt (.remove lockPath) with
  | .ok () => pure ()
  | .error errno =>
    Audit.warn (ascii "Cannot remove lock " ++ lockPath.beforeNul ++ ascii ": " ++ errno.text)

/-- Does something while holding the lock of a store. -/
def holdingLock {α : Type} (store : Store) (body : Audit α) : Audit α := do
  match ← store.lock with
  | some lockPath => Audit.ensuring body (release lockPath)
  | none => body

end StoreAudit.Store
