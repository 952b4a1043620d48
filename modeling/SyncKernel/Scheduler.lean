import SyncKernel.Message.Transfer

/-!
# The scheduler

Each processor runs one process until it blocks or yields. `Population.schedule` picks the next one:
receives past their deadline are ended first, then the slots are searched in a circle that starts
behind the slot picked last. A processor that finds nothing waits (`Decision.idle`) as long as
something can still happen, and otherwise stops for good (`Decision.monitor`).
-/

namespace SyncKernel

/-- The scheduling state of a processor. -/
structure Cpu where
  /-- The process it runs. -/
  current : Option Pid := none
  /-- The slot it picked last. -/
  lastSlot : Option (Fin slotCount) := none
deriving DecidableEq, Inhabited

/-- What a processor does next. -/
inductive Decision where
  /-- It runs a process. -/
  | run (pid : Pid)
  /-- It waits for an interrupt and asks again. -/
  | idle
  /-- No process can ever run again. -/
  | monitor
deriving DecidableEq

/-- Whether a processor may run a process: it is runnable, or already runs on that very processor.
-/
def Process.canRunOn (p : Process) (cpu : Nat) : Bool :=
  match p.status with
  | .runnable => true
  | .running => p.cpu == some cpu
  | _ => false

/-- All slots in a circle, from the one behind `last`, or from the first. -/
def scanOrder (last : Option (Fin slotCount)) : List (Fin slotCount) :=
  let start := match last with
    | none => 0
    | some i => (i.val + 1) % slotCount
  (List.finRange slotCount).map fun i =>
    ⟨(start + i.val) % slotCount, Nat.mod_lt _ (by decide)⟩

namespace ProcessTable

/-- The slot of the process that a processor runs next. -/
def choose (t : ProcessTable) (cpu : Nat) (last : Option (Fin slotCount)) :
    Option (Fin slotCount) :=
  (scanOrder last).find? fun i => (t.at? i).any (·.canRunOn cpu)

/-- The table after a processor let go of the process it ran: if that process is still the
processor's own, it is put back among the runnable ones unless it was chosen again, and it keeps the
processor only while it runs. -/
def release (t : ProcessTable) (cpu : Nat) (current : Option Pid)
    (chosen : Option (Fin slotCount)) : ProcessTable :=
  match current with
  | none => t
  | some pid =>
    t.update pid fun p =>
      if p.cpu ≠ some cpu then p
      else
        let p := if p.status = .running ∧ chosen ≠ some pid.slot then { p with status := .runnable }
          else p
        if p.status ≠ .running then { p with cpu := none } else p

/-- Whether something can still happen without this processor: a process is runnable, runs on
another processor, or waits for a deadline. -/
def canProgress (t : ProcessTable) (cpu : Nat) : Bool :=
  t.processes.any (fun p => p.status == .runnable || (p.status == .running && p.cpu != some cpu)) ||
    t.processes.any (·.hasPendingDeadline)

end ProcessTable

namespace Population

/-- End the receive of a list of slots where it is past its deadline; the answer counts them. -/
def expireSlots (now : Millis) : List (Fin slotCount) → Population → Except Fault (Nat × Population)
  | [], w => .ok (0, w)
  | i :: rest, w => do
    let (ended, w) ← match w.procs.at? i with
      | none => pure (0, w)
      | some p =>
        if p.status = .blocked ∧ p.receive.receiving ∧
            deadlineElapsed p.receive.deadline now then do
          pure (1, ← w.expireReceive p)
        else pure (0, w)
    let (count, w) ← expireSlots now rest w
    return (ended + count, w)

/-- End all receives past their deadline; the answer counts them. -/
def expireReceives (w : Population) (now : Millis) : Except Fault (Nat × Population) :=
  expireSlots now (List.finRange slotCount) w

/-- Pick the next process for a processor. -/
def schedule (w : Population) (state : Cpu) (cpu : Nat) (now : Millis) :
    Except Fault (Decision × Cpu × Population) := do
  let (_, w) ← w.expireReceives now
  let chosen := w.procs.choose cpu state.lastSlot
  let w := { w with procs := w.procs.release cpu state.current chosen }
  match chosen.bind fun i => (w.procs.at? i).map fun p => (i, p) with
  | some (i, p) =>
    if p.runs.toNat + 1 < UInt64.size then
      let p := { p with status := .running, cpu := some cpu, runs := p.runs + 1 }
      return (.run p.pid, ⟨some p.pid, some i⟩,
        ({ w with procs := w.procs.setAt i p }).note (.chosen cpu p.pid))
    else throw .runCountOverflow
  | none =>
    let state := { state with current := none }
    if w.procs.canProgress cpu then return (.idle, state, w.note (.idle cpu))
    else return (.monitor, state, w.note (.monitor cpu))

/-- A running process gives up its processor and stays runnable. -/
def yield (w : Population) (pid : Pid) : Population :=
  { w with procs := w.procs.update pid fun p =>
      if p.status = .running then { p with status := .runnable } else p }

end Population

end SyncKernel
