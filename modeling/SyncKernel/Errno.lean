/-!
# Error answers

The errors with which a kernel operation refuses a request, and their encoding in a return register:
error `e` is the two's complement of its code. `Errno.toWord` writes the encoding and
`Errno.ofReturn?` reads it back.
-/

namespace SyncKernel

/-- A condition of the machine that no answer describes: the operation stops there. Each constructor
names the rule that was broken. -/
inductive Fault where
  /-- The least 64-bit integer was negated. -/
  | negationOverflow
  /-- An address computation passed the top of the address space. -/
  | addressOverflow
  /-- A buffer longer than any that can be set up was asked for. -/
  | bufferTooLong
  /-- A signal number outside `1..64` was used as a bit position or an index. -/
  | signalOutOfRange
  /-- A position beyond the end of a queue was used. -/
  | positionOutOfRange
  /-- A processor number that names no processor was used. -/
  | cpuOutOfRange
  /-- A process that is not blocked was to be woken. -/
  | wokenWhileNotBlocked
  /-- A process that already waits on a futex was to wait again. -/
  | waitingTwice
  /-- A process that still waits on a futex was to be reclaimed. -/
  | reclaimedWhileWaiting
  /-- The count of runs of a process passed the greatest 64-bit word. -/
  | runCountOverflow
deriving DecidableEq, Repr

/-- The reasons for which an operation refuses a request. -/
inductive Errno where
  /-- The process does not exist or is being destroyed. -/
  | noSuchProcess
  /-- A signal ended the call. -/
  | interruptedSystemCall
  /-- The value was not the expected one; the caller may try again. -/
  | tryAgain
  /-- A table or queue is full. -/
  | outOfMemory
  /-- User memory cannot be accessed as asked. -/
  | badAddress
  /-- An argument is out of range. -/
  | invalidArgument
  /-- There is no such call. -/
  | functionNotImplemented
  /-- The deadline passed. -/
  | timedOut
  /-- The target of a message is not receiving. -/
  | notReceiving
  /-- A timeout of zero was given. -/
  | badTimeout
deriving DecidableEq, Repr

namespace Errno

/-- The positive code of an error. -/
def code : Errno → Nat
  | noSuchProcess => 3
  | interruptedSystemCall => 4
  | tryAgain => 11
  | outOfMemory => 12
  | badAddress => 14
  | invalidArgument => 22
  | functionNotImplemented => 38
  | timedOut => 110
  | notReceiving => 530
  | badTimeout => 531

/-- The word a return register holds for an error: its code, negated modulo `2 ^ 64`. -/
def toWord (e : Errno) : UInt64 :=
  0 - UInt64.ofNat e.code

/-- The error with a code. The table is written out once more here; `ofCode?_eq_some` shows that it
agrees with `code`. -/
def ofCode? : Int → Option Errno
  | 3 => some noSuchProcess
  | 4 => some interruptedSystemCall
  | 11 => some tryAgain
  | 12 => some outOfMemory
  | 14 => some badAddress
  | 22 => some invalidArgument
  | 38 => some functionNotImplemented
  | 110 => some timedOut
  | 530 => some notReceiving
  | 531 => some badTimeout
  | _ => none

/-- The error whose encoding a returned integer is, if there is one. The code is found by negating
the integer, so the least one, which has no negation in range, stops it. -/
def ofReturn? (ret : Int64) : Except Fault (Option Errno) :=
  if ret = Int64.minValue then .error .negationOverflow
  else .ok (ofCode? (-ret.toInt))

/-- The name of an error, as the log writes it. -/
def name : Errno → String
  | noSuchProcess => "NoSuchProcess"
  | interruptedSystemCall => "InterruptedSystemCall"
  | tryAgain => "TryAgain"
  | outOfMemory => "OutOfMemory"
  | badAddress => "BadAddress"
  | invalidArgument => "InvalidArgument"
  | functionNotImplemented => "FunctionNotImplemented"
  | timedOut => "TimedOut"
  | notReceiving => "IpcNotRecv"
  | badTimeout => "BadTimeout"

end Errno

end SyncKernel
