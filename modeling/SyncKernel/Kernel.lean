import SyncKernel.Futex.Robust
import SyncKernel.Futex.Wait
import SyncKernel.Message.Call
import SyncKernel.Message.Sweep
import SyncKernel.Scheduler
import SyncKernel.Signal.Delivery
import SyncKernel.Signal.Send

/-!
# The kernel

The state of the whole system and the operations on it. An operation is a `Step`: it answers a value
and leaves a kernel, or it stops with a `Fault`. A request that is refused is answered with an
`Errno`.
-/

namespace SyncKernel

/-- The state of the whole system. -/
structure Kernel extends Population where
  /-- The processors. -/
  cpus : Vector Cpu cpuCount := .replicate cpuCount {}
  /-- The queues of processes that wait on futexes. -/
  futexes : FutexTable := {}
  /-- The clock. -/
  clock : Clock
  /-- The time of the last periodic sweep. -/
  lastSweep : Millis

/-- A kernel without processes that starts with a clock. -/
def Kernel.boot (clock : Clock) : Kernel :=
  { clock, lastSweep := clock.now }

instance : Inhabited Kernel := ⟨.boot default⟩

/-- An operation of the kernel. -/
abbrev Step := EStateM Fault Kernel

namespace Step

/-- Report an event. -/
def note (n : Notice) : Step Unit :=
  modify fun k => { k with toPopulation := k.toPopulation.note n }

/-- An operation on the processes and their memory. -/
def ofPopulation {α : Type} (f : Population → Except Fault (α × Population)) : Step α := do
  let k ← get
  match f k.toPopulation with
  | .error fault => throw fault
  | .ok (a, w) =>
    set { k with toPopulation := w }
    return a

/-- An operation on one process, dying or not, and the memory; nothing is done without a process. -/
def ofPresent {α : Type} (pid : Pid)
    (f : Process → Memory → Except Fault (α × Process × Memory)) : Step (Option α) :=
  ofPopulation fun w =>
    match w.procs.get? pid with
    | none => .ok (none, w)
    | some p => do
      let (a, p, memory) ← f p w.memory
      return (some a, { w with procs := w.procs.put p, memory })

/-- An operation on one process and the memory; the process must exist and not be dying. -/
def ofLive {α : Type} (pid : Pid)
    (f : Process → Memory → Except Fault (Except Errno α × Process × Memory)) :
    Step (Except Errno α) :=
  ofPopulation fun w =>
    match w.procs.lookup pid with
    | .error e => .ok (.error e, w)
    | .ok p => do
      let (a, p, memory) ← f p w.memory
      return (a, { w with procs := w.procs.put p, memory })

end Step

/-- The record of a process that is being destroyed: it runs nowhere, waits for nothing and holds no
list of locks. -/
def Process.bury (p : Process) : Process :=
  { p with
    status := .dying
    receive := { p.receive with receiving := false, deadline := none }
    send := {}
    signal := { p.signal with wait := none }
    robust := none
    cpu := none }

namespace Kernel

open Step

/-- Enter a process with an address space and registers; it is runnable. -/
def spawn (space : SpaceId) (frame : TrapFrame) : Step (Except Errno Pid) := do
  let k ← get
  match k.procs.alloc space frame with
  | .error e => return .error e
  | .ok (pid, procs) =>
    set { k with procs }
    note (.spawned pid)
    return .ok pid

/-- The status of a process; an id without a process is free. -/
def status (k : Kernel) (pid : Pid) : Status :=
  match k.procs.get? pid with
  | some p => p.status
  | none => .free

/-- Pick the next process for a processor. -/
def schedule (cpu : Nat) : Step Decision := do
  let k ← get
  if h : cpu < cpuCount then
    match k.toPopulation.schedule k.cpus[cpu] cpu k.clock.now with
    | .error fault => throw fault
    | .ok (decision, state, w) =>
      set { k with toPopulation := w, cpus := k.cpus.set cpu state }
      return decision
  else throw .cpuOutOfRange

/-- Sweep the blocked calls on messages now; the answer counts those that were ended. -/
def sweepNow : Step Nat := do
  let k ← get
  ofPopulation (·.sweep k.clock.now)

/-- The timer interrupt: sweep if the last periodic sweep is long enough ago. -/
def timerTick : Step Nat := do
  let k ← get
  if !sweepEnabled || k.clock.now.toNat - k.lastSweep.toNat < sweepInterval then return 0
  else
    set { k with lastSweep := k.clock.now }
    sweepNow

/-- Block a process on a futex. -/
def futexWait (pid : Pid) (address : UInt64) (expected : UInt32) : Step (Except Errno Unit) := do
  let k ← get
  match k.toPopulation.futexWait k.futexes pid address expected with
  | .error fault => throw fault
  | .ok (answer, futexes, w) =>
    set { k with toPopulation := w, futexes }
    return answer

/-- Wake up to `most` processes that wait on an address; the answer counts them. -/
def futexWake (address : UInt64) (most : Nat) : Step Nat := do
  let k ← get
  let (count, futexes, w) := k.toPopulation.futexWake k.futexes address most
  set { k with toPopulation := w, futexes }
  return count

/-- Take a process out of the queue of an address; the answer says whether it stood there. -/
def futexUnlink (pid : Pid) (address : UInt64) : Step Bool := do
  let k ← get
  let (found, futexes) := k.futexes.unlink pid address
  set { k with futexes }
  return found

/-- Mark each of a list of locks that a process owns, and report those that were marked. -/
def markLocks (space : SpaceId) (pid : Pid) : List UInt64 → Step Unit
  | [] => return
  | address :: rest => do
    let k ← get
    match k.memory.markOwnerDied? space address pid with
    | some memory =>
      set { k with memory }
      note (.ownerDied pid address)
    | none => pure ()
    markLocks space pid rest

/-- Wake one process that waits on each of a list of locks. -/
def wakeLocks : List UInt64 → Step Unit
  | [] => return
  | address :: rest => do
    let _ ← futexWake address 1
    wakeLocks rest

/-- Take a process from the processor its record names. -/
def leaveCpu (pid : Pid) (cpu : Option Nat) : Step Unit := do
  match cpu with
  | none => return
  | some c =>
    let k ← get
    if h : c < cpuCount then
      if k.cpus[c].current = some pid then
        set { k with cpus := k.cpus.set c { k.cpus[c] with current := none } }
    else throw .cpuOutOfRange

/-- Destroy a process: mark the locks it owns, take it from its processor and out of every wait, and
wake one waiter of each lock of its list. Its slot stays in use until it is reclaimed. -/
def destroy (pid : Pid) : Step (Except Errno Unit) := do
  let k ← get
  match k.procs.lookup pid with
  | .error e => return .error e
  | .ok p =>
    let locks := match p.robust with
      | some list => k.memory.robustLocks p.space list
      | none => []
    markLocks p.space pid locks
    leaveCpu pid p.cpu
    modify fun k => { k with procs := k.procs.put { p.bury with futex := none } }
    match p.futex with
    | some address => discard (futexUnlink pid address)
    | none => pure ()
    wakeLocks locks
    note (.destroyed pid)
    return .ok ()

/-- End a process for a reason, if it is still there. -/
def kill (pid : Pid) (why : KillReason) : Step Unit := do
  note (.terminating pid why)
  match ← destroy pid with
  | .ok () => return
  | .error e => note (.alreadyGone pid e)

/-- Report what became of a signal that was sent. -/
def noteSent (pid : Pid) (n : Nat) : Sent → Step Unit
  | .handed => note (.signalHanded n pid)
  | .queued | .merged | .lost => return

/-- Send a signal to a process. A process that waits for it and cannot be told is destroyed. -/
def sendSignal (target : Pid) (n : Nat) (value : UInt64) : Step (Except Errno Unit) := do
  match ← ofLive target (·.sendSignal · n value) with
  | .error e => return .error e
  | .ok sent =>
    noteSent target n sent
    if sent = .lost then
      note (.signalLost target)
      destroy target
    else return .ok ()

/-- Take a destroyed process out of the table. It must not stand in a futex queue. -/
def reclaim (pid : Pid) : Step (Except Errno Unit) := do
  let k ← get
  match k.procs.reclaim pid with
  | .error fault => throw fault
  | .ok (.error e) => return .error e
  | .ok (.ok procs) =>
    if k.futexes.isQueued pid then throw .reclaimedWhileWaiting
    else
      set { k with procs }
      return .ok ()

/-- What happens to a process on its way back to user code. -/
inductive TrapReturn where
  /-- It resumes with the given registers. -/
  | resume (frame : TrapFrame)
  /-- It was ended, or was not there. -/
  | killed
deriving DecidableEq

/-- Report what delivering a signal did. -/
def noteDelivery (pid : Pid) : Delivery → Step Unit
  | .handled n address => note (.framed pid n address)
  | .unwritable n stack => note (.frameFailed pid n stack)
  | .none | .ignored _ | .fatal _ => return

/-- Deliver a signal to a process, and report it. -/
def deliver (pid : Pid) : Step (Except Errno Delivery) := do
  let answer ← ofLive pid fun p m =>
    if signalsEnabled then (p.deliver m).map fun (d, p, m) => (.ok d, p, m)
    else .ok (.ok .none, p, m)
  match answer with
  | .error e => return .error e
  | .ok delivery =>
    noteDelivery pid delivery
    return .ok delivery

/-- Go back to user code: deliver a signal, and end the process if it has to end. -/
def trapReturn (pid : Pid) : Step TrapReturn := do
  match ← deliver pid with
  | .error _ => return .killed
  | .ok delivery =>
    match delivery with
    | .fatal n | .unwritable n _ =>
      note (.signalFatal pid n)
      kill pid .signal
      return .killed
    | .none | .ignored _ | .handled _ _ =>
      match (← get).procs.get? pid with
      | some p => return .resume p.frame
      | none => return .killed

/-- Set the result of a system call of a process, if there is one. -/
def setReturn (pid : Pid) (value : UInt64) : Step Unit :=
  modify fun k =>
    { k with procs := k.procs.update pid fun p => { p with frame := p.frame.setReturn value } }

end Kernel

end SyncKernel
