import SyncKernel.Clock
import SyncKernel.Pid

/-!
# Messages

A message is a word together with a payload, a stretch of the sender's memory that is copied to the
receiver. A process that waits for a message keeps a `ReceiveState`, one that waits to get rid of a
message a `SendState`; both stay in its record. There are no buffers in between: a message passes
when both sides are there.
-/

namespace SyncKernel

/-- A message. -/
structure Message where
  /-- The word that the receiver's call answers. -/
  value : UInt64 := 0
  /-- The address of the payload in the sender's memory. -/
  source : UInt64 := 0
  /-- The number of bytes of the payload; zero for none. -/
  size : UInt64 := 0
  /-- The word of page permissions passed along with the payload. -/
  perm : UInt32 := 0
deriving DecidableEq, Repr, Inhabited

/-- The receiving side of a process: what it waits for, or the outcome of its last receive. -/
structure ReceiveState where
  /-- The process waits for a message. -/
  receiving : Bool := false
  /-- The time at which it gives up. -/
  deadline : Option Millis := none
  /-- The address of the buffer for the payload. -/
  buffer : UInt64 := 0
  /-- The number of bytes of the buffer; zero if no payload is wanted. -/
  capacity : UInt64 := 0
  /-- The sender of the message that ended the last receive. -/
  sender : Option Pid := none
  /-- The word of that message. -/
  value : UInt64 := 0
  /-- The permissions that came with its payload. -/
  perm : UInt32 := 0
  /-- The number of payload bytes that were copied. -/
  size : UInt64 := 0
  /-- The last receive ended at its deadline. -/
  timedOut : Bool := false
deriving DecidableEq, Repr, Inhabited

/-- The state without the outcome of an earlier receive. -/
def ReceiveState.clearResult (r : ReceiveState) : ReceiveState :=
  { r with sender := none, value := 0, perm := 0, size := 0 }

/-- The sending side of a process; only sends with a timeout wait. -/
structure SendState where
  /-- The process waits for its message to be taken. -/
  sending : Bool := false
  /-- The process it sends to. -/
  target : Option Pid := none
  /-- The message. -/
  message : Message := {}
  /-- The time at which it gives up. -/
  deadline : Option Millis := none
deriving DecidableEq, Repr, Inhabited

/-- The outcome of trying to pass a message. -/
inductive Attempt where
  /-- The receiver has it and was woken. -/
  | delivered
  /-- The target is not receiving. -/
  | notReady
  /-- There is no such process, or it is being destroyed. -/
  | targetGone
deriving DecidableEq, Repr

/-- The name of an outcome, as the log writes it. -/
def Attempt.name : Attempt → String
  | delivered => "Delivered"
  | notReady => "NotReady"
  | targetGone => "TargetGone"

/-- The outcome of a call that may block. -/
inductive CallOutcome where
  /-- The call is over and answers a word. -/
  | done (value : UInt64)
  /-- The caller was blocked. -/
  | blocked
deriving DecidableEq, Repr

end SyncKernel
