import StoreAudit.Store.Basic

/-!
# Repair

Corrupt objects are not deleted but moved out of the way, in the order in which they were reported.
The first that cannot be moved ends the repair.
-/

namespace StoreAudit.Store

/-- Moves one object out of service. -/
def setAside (store : Store) (oid : Bytes) : Audit Unit := do
  let source ← store.objectPath oid
  let target := store.quarantinePath oid
  Audit.change (ascii "rename(" ++ source ++ ascii ", " ++ target ++ ascii ")")
    (.rename source target)
  Audit.note (ascii "quarantined " ++ oid.beforeNul)

/-- Moves the objects that the report calls corrupt out of service and returns their number. -/
def repair (store : Store) : Audit Nat := do
  let oids := (← get).report.corrupt
  Audit.print (ascii "objects: repair: moving corrupt objects to " ++ store.quarantine)
  Audit.change (ascii "mkdir(" ++ store.quarantine ++ ascii ")") (.makeDirectories store.quarantine)
  oids.forM store.setAside
  pure oids.length

end StoreAudit.Store
