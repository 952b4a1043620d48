import SyncKernel.Signal.Set

/-!
# Pending signals

The signals a process has been sent and has not yet taken, in order of arrival, each with the value
it was sent with. The queue is bounded; that a signal stands in it only once is the business of the
sender (`Process.sendSignal`).
-/

namespace SyncKernel

/-- A signal that waits to be delivered. -/
structure PendingSignal where
  /-- The number of the signal. -/
  number : Nat
  /-- The value it was sent with. -/
  value : UInt64
deriving DecidableEq, Repr

/-- The pending signals of a process. -/
structure SignalQueue where
  /-- The signals, the one that arrived first in front. -/
  entries : List PendingSignal := []
deriving DecidableEq

namespace SignalQueue

instance : Inhabited SignalQueue := ⟨{}⟩

/-- The number of pending signals. -/
def length (q : SignalQueue) : Nat := q.entries.length

/-- Whether no signal is pending. -/
def isEmpty (q : SignalQueue) : Bool := q.entries.isEmpty

/-- Whether there is no room for another signal. -/
def isFull (q : SignalQueue) : Bool := decide (queueCapacity ≤ q.length)

/-- Whether a signal is pending. -/
def contains (q : SignalQueue) (n : Nat) : Bool :=
  q.entries.any fun e => e.number == n

/-- The queue with a signal behind the others, if there is room. -/
def push (q : SignalQueue) (e : PendingSignal) : Except Errno SignalQueue :=
  if q.isFull then .error .outOfMemory else .ok ⟨q.entries ++ [e]⟩

/-- The signal at a position and the queue without it. -/
def removeAt (q : SignalQueue) (i : Nat) : Except Fault (PendingSignal × SignalQueue) :=
  match q.entries[i]? with
  | none => .error .positionOutOfRange
  | some e => .ok (e, ⟨q.entries.eraseIdx i⟩)

/-- The first signal that satisfies a test, and the queue without it. -/
def takeFirst (q : SignalQueue) (test : Nat → Bool) : Option (PendingSignal × SignalQueue) :=
  match q.entries.findIdx? fun e => test e.number with
  | none => none
  | some i => (q.removeAt i).toOption

/-- The given signal, if it is pending, and the queue without it. -/
def take (q : SignalQueue) (n : Nat) : Option (PendingSignal × SignalQueue) :=
  q.takeFirst (· == n)

/-- The position of the first signal of a set. -/
def firstIn (q : SignalQueue) (s : SignalSet) : Option Nat :=
  q.entries.findIdx? fun e => s.contains e.number

/-- Whether a mask lets a signal through; no mask stops the kill signal. -/
def passes (mask : SignalSet) (n : Nat) : Bool :=
  !(mask.erase killSignal).contains n

/-- The position of the first signal that a mask lets through. -/
def firstUnmasked (q : SignalQueue) (mask : SignalSet) : Option Nat :=
  q.entries.findIdx? fun e => passes mask e.number

end SignalQueue

end SyncKernel
