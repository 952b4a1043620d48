import SyncKernel.Memory.UserAccess
import SyncKernel.Process.Basic

/-!
# Sending and awaiting signals

A signal that is sent goes straight to a process that waits for it, and otherwise to the queue of
pending signals, where each signal stands at most once. The kill signal is never handed to a wait:
it always goes to the queue, and it ends a wait.
-/

namespace SyncKernel

/-- What became of a signal that was sent. -/
inductive Sent where
  /-- It was handed to the process, which waited for it. -/
  | handed
  /-- It was put behind the pending signals. -/
  | queued
  /-- It was pending already and is not kept twice. -/
  | merged
  /-- The process waited for it, but its number could not be written: the process must be ended. -/
  | lost
deriving DecidableEq, Repr

namespace Process

/-- The process with its wait for a signal given up and the mask from before the wait restored. -/
def leaveWait (p : Process) (wait : SignalWait) : Process :=
  { p with signal := { p.signal with wait := none, mask := wait.saved } }

/-- Send a signal to a process. -/
def sendSignal (p : Process) (m : Memory) (n : Nat) (value : UInt64) :
    Except Fault (Except Errno Sent × Process × Memory) :=
  if !isSignal n then .ok (.error .invalidArgument, p, m)
  else match p.signal.wait.filter fun wait => n != killSignal && wait.accept.contains n with
    | some wait =>
      let p := p.leaveWait wait
      match m.userWrite32 p.space wait.destination (UInt32.ofNat n) with
      | .error _ => .ok (.ok .lost, p, m)
      | .ok m => do return (.ok .handed, ← p.wake 0, m)
    | none =>
      if p.signal.queue.contains n then .ok (.ok .merged, p, m)
      else match p.signal.queue.push ⟨n, value⟩ with
        | .error e => .ok (.error e, p, m)
        | .ok queue =>
          let p := { p with signal := { p.signal with queue } }
          match p.signal.wait.filter fun _ => n == killSignal with
          | some wait => do
            return (.ok .queued, ← (p.leaveWait wait).wake Errno.interruptedSystemCall.toWord, m)
          | none => .ok (.ok .queued, p, m)

/-- Take a pending signal of `accept` and write its number to user memory, or wait for one to be
sent and answer `none`. While a process waits, the signals it accepts are not masked. The kill
signal cannot be waited for. -/
def awaitSignal (p : Process) (m : Memory) (accept : SignalSet) (destination : UInt64) :
    Except Errno (Option Nat) × Process × Memory :=
  let accept := accept.erase killSignal
  if accept.isEmpty then (.error .invalidArgument, p, m)
  else match m.userCheck p.space destination 4 .toWrite with
    | .error e => (.error e, p, m)
    | .ok () =>
      match p.signal.queue.takeFirst accept.contains with
      | some (taken, queue) =>
        let p := { p with signal := { p.signal with queue } }
        match m.userWrite32 p.space destination (UInt32.ofNat taken.number) with
        | .error e => (.error e, p, m)
        | .ok m => (.ok (some taken.number), p, m)
      | none =>
        if p.signal.queue.contains killSignal then (.error .interruptedSystemCall, p, m)
        else
          let signal := { p.signal with
            wait := some ⟨accept, p.signal.mask, destination⟩
            mask := p.signal.mask.difference accept }
          (.ok none, { p with signal, status := .blocked }, m)

/-- Answer the action for a signal, and replace it if a new one is given. The action for the kill
signal cannot be seen or changed. -/
def changeAction (p : Process) (n : Nat) (new : Option Action) : Except Errno (Action × Process) :=
  if n = killSignal then .error .invalidArgument
  else match p.signal.action? n with
    | .error _ => .error .invalidArgument
    | .ok old =>
      match new with
      | none => .ok (old, p)
      | some action => .ok (old, { p with signal := p.signal.setAction n action })

/-- Change the action for a signal from and to records in user memory; address 0 stands for no
record. The new record is read and the place of the old one checked before anything changes. -/
def exchangeAction (p : Process) (m : Memory) (n : Nat) (new old : UInt64) :
    Except Errno Unit × Process × Memory :=
  let wanted : Except Errno (Option Action) :=
    if new = 0 then .ok none
    else match m.userRead p.space new ActionRecord.byteSize with
      | .error e => .error e
      | .ok bytes => (Action.ofRecord? (.ofBytes bytes)).map some
  match wanted with
  | .error e => (.error e, p, m)
  | .ok wanted =>
    let room : Except Errno Unit :=
      if old = 0 then .ok () else m.userCheck p.space old ActionRecord.byteSize .toWrite
    match room with
    | .error e => (.error e, p, m)
    | .ok () =>
      match p.changeAction n wanted with
      | .error e => (.error e, p, m)
      | .ok (before, p) =>
        if old = 0 then (.ok (), p, m)
        else match m.userWrite p.space old before.toRecord.toBytes with
          | .error e => (.error e, p, m)
          | .ok m => (.ok (), p, m)

/-- Register the user code that calls handlers; address 0 takes the registration back. -/
def registerEntry (p : Process) (m : Memory) (entry : UInt64) : Except Errno Process :=
  if entry = 0 then .ok { p with signal := { p.signal with entry := none } }
  else match m.userCheck p.space entry 4 .toExec with
    | .error e => .error e
    | .ok () => .ok { p with signal := { p.signal with entry := some entry } }

end Process

end SyncKernel
