import SyncKernel.Log
import SyncKernel.Process.Basic

/-!
# Notices

The events that the kernel reports. A `Notice` says what happened; its level, its part of the system
and its text are functions of it, so the wording of the log is in this module only.
-/

namespace SyncKernel

/-- Why the kernel ends a process by itself. -/
inductive KillReason where
  /-- A signal whose action is to end the process was delivered. -/
  | signal
  /-- The process returned from a handler with a frame that cannot be read. -/
  | badFrame
deriving DecidableEq, Repr

/-- The wording of a reason. -/
def KillReason.text : KillReason → String
  | signal => "killed by signal"
  | badFrame => "bad signal frame"

/-- An event that the kernel reports. -/
inductive Notice where
  /-- A process was entered into the table. -/
  | spawned (pid : Pid)
  /-- A process was destroyed. -/
  | destroyed (pid : Pid)
  /-- A process is about to be ended. -/
  | terminating (pid : Pid) (why : KillReason)
  /-- A process that was to be ended is not there. -/
  | alreadyGone (pid : Pid) (error : Errno)
  /-- A system call was entered. -/
  | call (pid : Pid) (number : UInt64) (args : List UInt64)
  /-- A processor goes on with a process. -/
  | chosen (cpu : Nat) (pid : Pid)
  /-- A processor waits. -/
  | idle (cpu : Nat)
  /-- No process can ever run again. -/
  | monitor (cpu : Nat)
  /-- The payload of a message was not copied. -/
  | payloadDropped (sender receiver : Pid) (error : Errno)
  /-- A message was passed. -/
  | passed (sender receiver : Pid) (value : UInt64)
  /-- A receive reached its deadline. -/
  | receiveTimedOut (pid : Pid)
  /-- A process waits to get rid of a message. -/
  | blocksSending (pid target : Pid) (timeout : Millis)
  /-- A process waits for a message. -/
  | blocksReceiving (pid : Pid)
  /-- The sweep ended a waiting send. -/
  | sendResolved (pid : Pid) (outcome : Attempt)
  /-- A process waits on a futex. -/
  | futexWaits (pid : Pid) (address : UInt64) (value : UInt32)
  /-- A process that was not blocked was taken out of a futex queue. -/
  | futexDropped (pid : Pid) (status : Status)
  /-- Processes that waited on a futex were woken. -/
  | futexWoke (count : Nat) (address : UInt64)
  /-- The owner of a lock died. -/
  | ownerDied (pid : Pid) (address : UInt64)
  /-- A signal went straight to a process that waits for it. -/
  | signalHanded (signal : Nat) (pid : Pid)
  /-- A process waits for signals. -/
  | signalWaits (pid : Pid) (accept : SignalSet)
  /-- A process that waits for a signal cannot be told its number. -/
  | signalLost (pid : Pid)
  /-- A signal ends a process. -/
  | signalFatal (pid : Pid) (signal : Nat)
  /-- A signal frame could not be written. -/
  | frameFailed (pid : Pid) (signal : Nat) (stack : UInt64)
  /-- A signal frame was written. -/
  | framed (pid : Pid) (signal : Nat) (address : UInt64)
  /-- A process returned from a handler. -/
  | frameLeft (pid : Pid) (counter : UInt64)
deriving DecidableEq

namespace Notice

/-- The level at which an event is reported. -/
def level : Notice → Level
  | terminating .. | signalLost .. | frameFailed .. => .warn
  | monitor .. => .info
  | call .. | chosen .. | idle .. | sendResolved .. | framed .. | frameLeft .. => .trace
  | _ => .debug

/-- The part of the system that reports an event. -/
def target : Notice → String
  | spawned .. | destroyed .. | terminating .. | alreadyGone .. => "proc"
  | call .. => "syscall"
  | chosen .. | idle .. => "sched"
  | monitor .. => "rux_sync::sched::sched"
  | payloadDropped .. | passed .. | receiveTimedOut .. | blocksSending .. | blocksReceiving ..
  | sendResolved .. => "ipc"
  | futexWaits .. | futexDropped .. | futexWoke .. | ownerDied .. => "futex"
  | signalHanded .. | signalWaits .. | signalLost .. | signalFatal .. | frameFailed .. | framed ..
  | frameLeft .. => "signal"

/-- The text that reports an event. -/
def message : Notice → String
  | spawned pid => "spawned " ++ pid.text
  | destroyed pid => pid.text ++ " destroyed"
  | terminating pid why => pid.text ++ ": " ++ why.text ++ ", terminating"
  | alreadyGone pid error => pid.text ++ ": already gone (" ++ error.name ++ ")"
  | call pid number args =>
    let shown := ", ".intercalate (args.map fun a => hexText a.toNat)
    pid.text ++ ": syscall " ++ toString number.toNat ++ " [" ++ shown ++ "]"
  | chosen cpu pid => "cpu" ++ toString cpu ++ " -> " ++ pid.text
  | idle cpu => "cpu" ++ toString cpu ++ " idle"
  | monitor cpu =>
    "cpu" ++ toString cpu ++ ": no runnable process in the system, entering monitor"
  | payloadDropped sender receiver error =>
    "payload " ++ sender.text ++ " -> " ++ receiver.text ++ " dropped: " ++ error.name
  | passed sender receiver value =>
    sender.text ++ " -> " ++ receiver.text ++ ": value " ++ hexMarked value.toNat
  | receiveTimedOut pid => pid.text ++ ": receive timed out"
  | blocksSending pid target timeout =>
    pid.text ++ " blocks sending to " ++ target.text ++ " for " ++ toString timeout.toNat ++ "ms"
  | blocksReceiving pid => pid.text ++ " blocks receiving"
  | sendResolved pid outcome => "sweep: " ++ pid.text ++ " send resolved as " ++ outcome.name
  | futexWaits pid address value =>
    pid.text ++ " waits on " ++ hexMarked address.toNat ++ " (val " ++ toString value.toNat ++ ")"
  | futexDropped pid status => "dropped waiter " ++ pid.text ++ " (" ++ status.name ++ ")"
  | futexWoke count address =>
    "woke " ++ toString count ++ " waiter(s) on " ++ hexMarked address.toNat
  | ownerDied pid address => pid.text ++ ": owner died on " ++ hexMarked address.toNat
  | signalHanded signal pid => "signal " ++ toString signal ++ " handed to sigwait of " ++ pid.text
  | signalWaits pid accept => pid.text ++ " waits for " ++ hexMarked accept.bits.toNat
  | signalLost pid => pid.text ++ ": sigwait destination faulted, killing"
  | signalFatal pid signal => pid.text ++ ": fatal signal " ++ toString signal
  | frameFailed pid signal stack =>
    pid.text ++ ": cannot write frame for signal " ++ toString signal ++ " (sp=" ++
      hexMarked stack.toNat ++ ")"
  | framed pid signal address =>
    pid.text ++ ": signal " ++ toString signal ++ " frame at " ++ hexMarked address.toNat
  | frameLeft pid counter => pid.text ++ ": sigreturn to " ++ hexMarked counter.toNat

/-- The log record of an event. -/
def toRecord (n : Notice) : LogRecord :=
  ⟨n.level, n.target, n.message⟩

end Notice

end SyncKernel
