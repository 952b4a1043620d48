import SyncKernel.Signal.Action
import SyncKernel.Signal.Queue

/-!
# Signal state of a process

The mask, the pending signals, the handler entry, the actions, and the wait for a signal of one
process. Actions are kept for the signals 1 to `signalCount`; asking for another is a fault.
-/

namespace SyncKernel

/-- A process that waits for a signal to be sent. -/
structure SignalWait where
  /-- The signals it takes. -/
  accept : SignalSet
  /-- Its mask before the wait. -/
  saved : SignalSet
  /-- The address at which the number of the signal is written. -/
  destination : UInt64
deriving DecidableEq

/-- The signal state of a process. -/
structure SignalState where
  /-- The signals that are not delivered for now. -/
  mask : SignalSet := .empty
  /-- The signals that wait to be delivered. -/
  queue : SignalQueue := {}
  /-- The address of the user code that calls handlers, if it is registered. -/
  entry : Option UInt64 := none
  /-- The action for signal `n` at position `n - 1`. -/
  actions : Vector Action signalCount := .replicate signalCount .standard
  /-- The wait for a signal, if there is one. -/
  wait : Option SignalWait := none
deriving DecidableEq

namespace SignalState

instance : Inhabited SignalState := ⟨{}⟩

/-- The action for a signal. -/
def action? (s : SignalState) (n : Nat) : Except Fault Action :=
  if h : 1 ≤ n ∧ n ≤ signalCount then .ok (s.actions.get ⟨n - 1, by omega⟩)
  else .error .signalOutOfRange

/-- The state with the action for a signal replaced; numbers out of range change nothing. -/
def setAction (s : SignalState) (n : Nat) (a : Action) : SignalState :=
  if h : 1 ≤ n ∧ n ≤ signalCount then { s with actions := s.actions.set (n - 1) a (by omega) }
  else s

end SignalState

end SyncKernel
