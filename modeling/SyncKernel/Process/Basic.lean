import SyncKernel.Errno
import SyncKernel.Memory.Basic
import SyncKernel.Message.Basic
import SyncKernel.Signal.State
import SyncKernel.TrapFrame

/-!
# Processes

The record the kernel keeps of a process: its status, saved registers and address space, and its
part in the three ways to block, which are messages, signals and futexes. `Process.wake` is the one
way out of a blocked system call that sets its result.
-/

namespace SyncKernel

/-- The status of a process. -/
inductive Status where
  /-- The slot is not in use. -/
  | free
  /-- The process may be chosen to run. -/
  | runnable
  /-- The process runs on a processor. -/
  | running
  /-- The process waits for a message, a futex or a signal. -/
  | blocked
  /-- The process was destroyed and not yet reclaimed. -/
  | dying
deriving DecidableEq, Repr

/-- The name of a status, as the log writes it. -/
def Status.name : Status → String
  | free => "Free"
  | runnable => "Runnable"
  | running => "Running"
  | blocked => "Blocked"
  | dying => "Dying"

/-- The list of locks a process registered to be released when it dies. -/
structure RobustList where
  /-- The address of the first record. -/
  head : UInt64
  /-- The greatest number of records that are visited. -/
  length : UInt64
deriving DecidableEq, Repr

/-- The record of a process. -/
structure Process where
  /-- The id of the process. -/
  pid : Pid
  /-- The status. -/
  status : Status := .runnable
  /-- The processor it runs on. -/
  cpu : Option Nat := none
  /-- The saved registers. -/
  frame : TrapFrame
  /-- The address space. -/
  space : SpaceId
  /-- The receiving side. -/
  receive : ReceiveState := {}
  /-- The sending side. -/
  send : SendState := {}
  /-- The signal state. -/
  signal : SignalState := {}
  /-- The address of the futex it waits on. -/
  futex : Option UInt64 := none
  /-- The registered list of locks. -/
  robust : Option RobustList := none
  /-- How often it was chosen to run. -/
  runs : UInt64 := 0
deriving DecidableEq

namespace Process

/-- Whether the process is blocked in a call on messages that has a deadline. -/
def hasPendingDeadline (p : Process) : Bool :=
  p.status == .blocked &&
    ((p.receive.receiving && p.receive.deadline.isSome) ||
      (p.send.sending && p.send.deadline.isSome))

/-- End the blocked call of a process with a result. Only a blocked process can be woken. -/
def wake (p : Process) (result : UInt64) : Except Fault Process :=
  if p.status = .blocked then .ok { p with frame := p.frame.setReturn result, status := .runnable }
  else .error .wokenWhileNotBlocked

end Process

end SyncKernel
