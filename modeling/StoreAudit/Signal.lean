/-!
# The stop signal

The user may ask to stop at any moment; the program looks at the request only at certain points.
A signal counts those looks and says at which of them the request has come.
-/

namespace StoreAudit

/-- The looks taken so far, and the number of looks after which the request is there, if it comes.
-/
structure Signal where
  polls : Nat := 0
  raisedAt : Option Nat := none
  deriving DecidableEq, Repr

namespace Signal

/-- Whether the request is there now. -/
def requested (signal : Signal) : Bool := signal.raisedAt.any fun moment => moment ≤ signal.polls

/-- The signal after one more look. -/
def poll (signal : Signal) : Signal := { signal with polls := signal.polls + 1 }

/-- The signal with the request made. -/
def raise (signal : Signal) : Signal := { signal with raisedAt := some 0 }

/-- The signal with the request withdrawn. -/
def reset (signal : Signal) : Signal := { signal with raisedAt := none }

/-- What happens to a process that listens to requests. -/
inductive Event where
  | request
  | reset
  /-- The handlers of both signals are set up. -/
  | install
  /-- The user interrupts the process. -/
  | interrupt
  /-- The system terminates the process. -/
  | terminate
  deriving DecidableEq, Repr

/-- The signal after an event. -/
def after (signal : Signal) : Event → Signal
  | .request | .interrupt | .terminate => signal.raise
  | .reset => signal.reset
  | .install => signal

end Signal

end StoreAudit
