import SyncKernel.Kernel

/-!
# System calls

A process asks for a system call with the number in `a7` and up to six arguments in `a0` to `a5`;
the result comes back in `a0`, an error as the two's complement of its code. `Kernel.syscall` serves
the call that the saved registers of a process ask for. Where an argument is a process id, 0 stands
for the caller; arguments that are 32 bits wide are the low halves of their registers.
-/

namespace SyncKernel

/-- The system calls. -/
inductive Syscall where
  /-- Wait on a futex or wake one. -/
  | futex
  /-- Register the list of held locks. -/
  | setRobustList
  /-- Give up the processor. -/
  | yield
  /-- Exchange the action for a signal. -/
  | signalAction
  /-- Wait for a signal. -/
  | signalWait
  /-- Send a signal. -/
  | signalSend
  /-- Return from a signal handler. -/
  | signalReturn
  /-- Send a message to a process that is receiving. -/
  | trySend
  /-- Receive a message. -/
  | receive
  /-- Send a message, waiting for the target. -/
  | sendTimeout
  /-- Receive a message before a deadline. -/
  | receiveTimeout
  /-- Register the code that calls handlers. -/
  | signalEntry
deriving DecidableEq, Repr

namespace Syscall

/-- All system calls, by ascending number. -/
def all : List Syscall :=
  [futex, setRobustList, yield, signalAction, signalWait, signalSend, signalReturn, trySend,
    receive, sendTimeout, receiveTimeout, signalEntry]

/-- The number of a system call. -/
def number : Syscall → Nat
  | futex => 98
  | setRobustList => 99
  | yield => 124
  | signalAction => 134
  | signalWait => 137
  | signalSend => 138
  | signalReturn => 139
  | trySend => 1100
  | receive => 1101
  | sendTimeout => 1102
  | receiveTimeout => 1103
  | signalEntry => 1104

/-- The system call of a number. -/
def ofNumber? (n : Nat) : Option Syscall :=
  all.find? fun c => c.number = n

end Syscall

/-- The arguments of a system call. -/
structure SyscallArgs where
  /-- The words of the argument registers. -/
  (a0 a1 a2 a3 a4 a5 : UInt64)

/-- The arguments in order. -/
def SyscallArgs.toArray (args : SyscallArgs) : Array UInt64 :=
  #[args.a0, args.a1, args.a2, args.a3, args.a4, args.a5]

/-- The arguments in the registers of a frame. -/
def TrapFrame.callArgs (f : TrapFrame) : SyscallArgs :=
  ⟨f.get .a0, f.get .a1, f.get .a2, f.get .a3, f.get .a4, f.get .a5⟩

/-- What a system call leaves for its caller. -/
inductive SyscallOutcome where
  /-- The call is over and its result is in `a0`. -/
  | returned (value : UInt64)
  /-- The caller is blocked. -/
  | blocked
  /-- The caller gave up its processor. -/
  | yielded
  /-- The registers of the caller were replaced. -/
  | restored
  /-- The caller was ended, or was not there. -/
  | exited
deriving DecidableEq

/-- The outcome of a system call that may have blocked its caller. -/
def SyscallOutcome.ofCall : CallOutcome → SyscallOutcome
  | .done value => .returned value
  | .blocked => .blocked

/-- The process that an argument names for a caller; the argument must fit an id. -/
def Pid.resolve (caller : Pid) (arg : UInt64) : Except Errno Pid :=
  if arg = 0 then .ok caller
  else if arg.toNat < UInt32.size then .ok ⟨arg.toUInt32⟩
  else .error .noSuchProcess

/-- The message that the arguments of a send describe, behind its target. -/
def Message.ofArgs (args : SyscallArgs) : Message :=
  ⟨args.a1, args.a2, args.a3, args.a4.toUInt32⟩

namespace Kernel

open Step

/-- What serving a system call answers: a refusal or an outcome. -/
abbrev Served := Step (Except Errno SyscallOutcome)

/-- The futex call: operation 0 waits for a value, operation 1 wakes a number of processes. -/
def serveFutex (pid : Pid) (args : SyscallArgs) : Served := do
  if !futexEnabled then return .error .functionNotImplemented
  else if args.a1 = 0 then
    match ← futexWait pid args.a0 args.a2.toUInt32 with
    | .error e => return .error e
    | .ok () => return .ok .blocked
  else if args.a1 = 1 then
    let count ← futexWake args.a0 args.a2.toNat
    return .ok (.returned (UInt64.ofNat count))
  else return .error .functionNotImplemented

/-- Register the list of held locks. -/
def serveSetRobustList (pid : Pid) (args : SyscallArgs) : Served :=
  ofLive pid fun p m => .ok <|
    match p.setRobustList m args.a0 args.a1 with
    | .error e => (.error e, p, m)
    | .ok p => (.ok (.returned 0), p, m)

/-- Give up the processor; the call will answer 0. -/
def serveYield (pid : Pid) : Served := do
  match ← ofLive pid fun p m => .ok (.ok (), { p with frame := p.frame.setReturn 0 }, m) with
  | .error e => return .error e
  | .ok () =>
    modify fun k => { k with toPopulation := k.toPopulation.yield pid }
    return .ok .yielded

/-- Exchange the action for a signal. -/
def serveSignalAction (pid : Pid) (args : SyscallArgs) : Served := do
  let n := args.a0.toUInt32.toNat
  if !isSignal n || n == killSignal then return .error .invalidArgument
  else
    match ← ofLive pid fun p m => .ok (p.exchangeAction m n args.a1 args.a2) with
    | .error e => return .error e
    | .ok () => return .ok (.returned 0)

/-- Report a wait for a signal that has begun. -/
def noteAwait (pid : Pid) (accept : SignalSet) : Option Nat → Step Unit
  | some _ => return
  | none => note (.signalWaits pid (accept.erase killSignal))

/-- Wait for a signal. -/
def serveSignalWait (pid : Pid) (args : SyscallArgs) : Served := do
  let accept := SignalSet.ofWord args.a0
  match ← ofLive pid fun p m => .ok (p.awaitSignal m accept args.a1) with
  | .error e => return .error e
  | .ok taken =>
    noteAwait pid accept taken
    return .ok (if taken.isSome then .returned 0 else .blocked)

/-- Send a signal. -/
def serveSignalSend (pid : Pid) (args : SyscallArgs) : Served := do
  match pid.resolve args.a0 with
  | .error e => return .error e
  | .ok target =>
    match ← sendSignal target args.a1.toUInt32.toNat args.a2 with
    | .error e => return .error e
    | .ok () => return .ok (.returned 0)

/-- Take the registers of a process from a signal frame and report it; the answer inside is the
refusal of a bad frame. -/
def leaveHandler (p : Process) (m : Memory) (frame : UInt64) :
    Except Errno UInt64 × Process × Memory :=
  match p.leaveHandler m frame with
  | .error e => (.error e, p, m)
  | .ok p => (.ok (p.frame.get .pc), p, m)

/-- Return from a signal handler. A process whose frame cannot be read is ended. -/
def serveSignalReturn (pid : Pid) (args : SyscallArgs) : Served := do
  match ← ofLive pid fun p m =>
      let (answer, p, m) := leaveHandler p m args.a0
      .ok (.ok answer, p, m) with
  | .error e => return .error e
  | .ok (.ok counter) =>
    note (.frameLeft pid counter)
    return .ok .restored
  | .ok (.error _) =>
    kill pid .badFrame
    return .ok .exited

/-- Register the code that calls handlers. -/
def serveSignalEntry (pid : Pid) (args : SyscallArgs) : Served :=
  ofLive pid fun p m => .ok <|
    match p.registerEntry m args.a0 with
    | .error e => (.error e, p, m)
    | .ok p => (.ok (.returned 0), p, m)

/-- Send a message to a process that is receiving. -/
def serveTrySend (pid : Pid) (args : SyscallArgs) : Served := do
  match pid.resolve args.a0 with
  | .error e => return .error e
  | .ok target =>
    match ← ofPopulation (·.trySend pid target (.ofArgs args)) with
    | .error e => return .error e
    | .ok () => return .ok (.returned 0)

/-- Send a message, waiting for the target. -/
def serveSendTimeout (pid : Pid) (args : SyscallArgs) : Served := do
  match pid.resolve args.a0 with
  | .error e => return .error e
  | .ok target =>
    let k ← get
    let answer ← ofPopulation (·.sendTimeout pid target (.ofArgs args) args.a5 k.clock.now)
    return answer.map .ofCall

/-- Receive a message, with or without a deadline. -/
def serveReceive (pid : Pid) (args : SyscallArgs) (timeout : Option Millis) : Served := do
  let k ← get
  let answer ← ofPopulation (·.receive pid args.a0 args.a1 timeout k.clock.now)
  return answer.map .ofCall

/-- Serve a system call for a caller. -/
def serve (pid : Pid) (args : SyscallArgs) : Syscall → Served
  | .futex => serveFutex pid args
  | .setRobustList => serveSetRobustList pid args
  | .yield => serveYield pid
  | .signalAction => serveSignalAction pid args
  | .signalWait => serveSignalWait pid args
  | .signalSend => serveSignalSend pid args
  | .signalReturn => serveSignalReturn pid args
  | .trySend => serveTrySend pid args
  | .receive => serveReceive pid args none
  | .sendTimeout => serveSendTimeout pid args
  | .receiveTimeout => serveReceive pid args (some args.a2)
  | .signalEntry => serveSignalEntry pid args

/-- Serve the system call that the registers of a process ask for. -/
def syscall (pid : Pid) : Step SyscallOutcome := do
  match (← get).procs.get? pid with
  | none => return .exited
  | some p =>
    let number := p.frame.callNumber
    let args := p.frame.callArgs
    note (.call pid number args.toArray.toList)
    let answer ← match Syscall.ofNumber? number.toNat with
      | some call => serve pid args call
      | none => pure (.error .functionNotImplemented)
    let outcome := match answer with
      | .ok outcome => outcome
      | .error e => .returned e.toWord
    match outcome with
    | .returned value => setReturn pid value
    | _ => pure ()
    return outcome

end Kernel

end SyncKernel
