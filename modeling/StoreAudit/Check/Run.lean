import StoreAudit.Check.Pointer
import StoreAudit.Check.Pool
import StoreAudit.Store.Lock
import StoreAudit.Store.Repair

/-!
# The whole check

The objects of a range are checked, then its pointers, and last, unless the run is dry, corrupt
objects are moved out of service. Only a dry run goes without the lock.
-/

namespace StoreAudit

/-- What the user asks for; asking for neither pass means both. -/
structure CheckOptions where
  dryRun : Bool := false
  objects : Bool := false
  pointers : Bool := false
  jobs : Int := 1
  deriving DecidableEq, Repr

namespace CheckOptions

/-- Whether the objects are checked. -/
def wantsObjects (options : CheckOptions) : Bool := options.objects || !options.pointers

/-- Whether the pointers are checked. -/
def wantsPointers (options : CheckOptions) : Bool := options.pointers || !options.objects

end CheckOptions

/-- What a check that ran to its end says. -/
inductive Verdict where
  | clean
  | corrupt
  deriving DecidableEq, Repr

/-- The exit status of a verdict. -/
def Verdict.status : Verdict → Nat
  | clean => 0
  | corrupt => 1

namespace Store

/-- The line that a check without findings prints. -/
def okLine : Bytes := ascii "Git LFS fsck OK"

/-- The pass over the objects. -/
def objectsPass (store : Store) (source : ScanSource) (jobs : Int) : Audit Unit := do
  Audit.begin .objects
  store.checkObjects source.objects jobs

/-- The pass over the pointers. -/
def pointersPass (source : ScanSource) : Audit Unit := do
  Audit.begin .pointers
  source.pointers.checkPointers

/-- What follows the passes: the verdict and, where it is wanted, the repair. -/
def conclude (store : Store) (options : CheckOptions) : Audit Verdict := do
  let report := (← get).report
  if report.isOk then
    Audit.print okLine
    pure .clean
  else if options.dryRun || report.corrupt.isEmpty then pure .corrupt
  else
    let moved ← store.repair
    Audit.note (ascii "fsck: moved " ++ Decimal.ofNat moved ++ ascii " objects to " ++
      store.quarantine.beforeNul)
    pure .corrupt

/-- The passes and what follows them, with a fresh report. -/
def checkUnlocked (store : Store) (options : CheckOptions) (source : ScanSource) :
    Audit Verdict := do
  modify fun session => { session with report := { dryRun := options.dryRun } }
  if options.wantsObjects then store.objectsPass source options.jobs
  if options.wantsPointers then pointersPass source
  store.conclude options

/-- The whole check. -/
def check (store : Store) (options : CheckOptions) (source : ScanSource) : Audit Verdict :=
  if options.dryRun then store.checkUnlocked options source
  else store.holdingLock (store.checkUnlocked options source)

end Store

end StoreAudit
