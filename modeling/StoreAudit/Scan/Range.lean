import StoreAudit.Git.Query

/-!
# Ranges of history

What is checked is either everything reachable from one commit, or what is reachable from one commit
and not from another. Without an argument it is the current commit together with what is staged.
-/

namespace StoreAudit

/-- A part of history; without a start it reaches back to the beginning. -/
structure ScanRange where
  start : Bytes := []
  stop : Bytes
  /-- Whether what is staged is checked too. -/
  useIndex : Bool := false
  deriving DecidableEq, Repr

/-- A way to find the commits that expressions name. -/
structure RefResolver where
  current : Audit Bytes
  resolveAll : List Bytes → Audit (List Bytes)

/-- The resolver that asks git. -/
def Repository.resolver (repository : Repository) : RefResolver where
  current := repository.resolve (ascii "HEAD")
  resolveAll := fun expressions => expressions.mapM repository.resolve

/-- The resolver that knows a fixed list of refs, of whose answers some can get lost at the end. -/
def RefResolver.ofList (refs : List (Bytes × Bytes)) (lost : Nat) : RefResolver where
  current := find (ascii "HEAD")
  resolveAll := fun expressions => do
    let found ← expressions.mapM find
    pure (found.take (found.length - lost))
where
  /-- The commit of one expression. -/
  find (expression : Bytes) : Audit Bytes :=
    match refs.lookup expression with
    | some commit => pure commit
    | none => throw (.unknownRef expression)

namespace ScanRange

/-- The separator between the two ends of a range. -/
def dots : Bytes := ascii ".."

/-- The expressions in an argument: its non-empty ends, or itself if it is no range. -/
def expressions (argument : Bytes) : List Bytes :=
  match Bytes.splitFirst dots argument with
  | some (before, after) => [before, after].filter fun expression => !expression.isEmpty
  | none => [argument]

/-- The range that the arguments name. -/
def resolve (arguments : List Bytes) (resolver : RefResolver) : Audit ScanRange :=
  match arguments with
  | [] => do
    let stop ← resolver.current
    Audit.trace (ascii "fsck: scanning " ++ stop.beforeNul ++ ascii " and the index")
    pure { stop, useIndex := true }
  | [argument] => do
    let wanted := expressions argument
    if wanted.isEmpty then throw (.invalidRef argument)
    let commits ← resolver.resolveAll wanted
    if commits.length ≠ wanted.length then throw (.unresolvedRef argument)
    let range : ScanRange := match commits with
      | [start, stop] => { start, stop }
      | stop :: _ => { stop }
      | [] => { stop := [] }
    Audit.trace (ascii "fsck: scanning " ++ range.start.beforeNul ++ ascii ".." ++
      range.stop.beforeNul)
    pure range
  | _ => throw .tooManyRefs

end ScanRange

end StoreAudit
