import SyncKernel.Proofs.Choosing
import SyncKernel.Proofs.Run

/-!
# Who runs on which processor

The record of a running process names the processor it runs on, and that processor names the process
as its current one. The converse fails: a process that blocks stays the current one of its processor
until that processor asks for the next, and by then it may have been woken and taken up by another
one. `Kernel.Attached` is the invariant that allows for such leftovers. Every operation keeps it,
asked for by anybody at any time: those that lead from one kernel to another let nobody begin to run
(`Step.Leads.attaches`), and a processor that asks for a process names the one that it takes up
(`Kernel.attaches_schedule`). So no processor ever runs two processes and no process runs on two
processors (`Operation.processors_exclusive`).
-/

namespace SyncKernel

open Step

/-- What may be asked of the kernel: to perform an event, allowed or not, or an operation on futexes
that is no event of its own. -/
inductive Operation where
  /-- An event. -/
  | event (e : Event)
  /-- A process is blocked on a futex. -/
  | futexWait (pid : Pid) (address : UInt64) (expected : UInt32)
  /-- A process is taken out of the queue of a futex. -/
  | futexUnlink (pid : Pid) (address : UInt64)

/-- Carry out what was asked for. -/
def Operation.perform : Operation → Step Unit
  | event e => (fun _ => ()) <$> e.perform
  | futexWait pid address expected => (fun _ => ()) <$> Kernel.futexWait pid address expected
  | futexUnlink pid address => (fun _ => ()) <$> Kernel.futexUnlink pid address

namespace Kernel

/-- Processors do not get in each other's way. -/
structure Exclusive (k : Kernel) : Prop where
  /-- A running process is the current one of the processor that its record names. -/
  current : ∀ p ∈ k.procs.processes, p.status = .running →
    ∃ c : Fin cpuCount, p.cpu = some c.val ∧ (k.cpus.get c).current = some p.pid
  /-- A processor runs one process at most. -/
  alone : ∀ p ∈ k.procs.processes, ∀ q ∈ k.procs.processes, p.status = .running →
    q.status = .running → p.cpu = q.cpu → p = q
  /-- A process runs on one processor at most. -/
  single : ∀ p ∈ k.procs.processes, ∀ q ∈ k.procs.processes, p.status = .running →
    q.status = .running → p.pid = q.pid → p.cpu = q.cpu
  /-- A processor that asks for a process leaves those alone that other processors run. -/
  spares : ∀ cpu d k', schedule cpu k = .ok d k' → ∀ p ∈ k.procs.processes, p.status = .running →
    p.cpu ≠ some cpu → k'.procs.get? p.pid = some p

/-- Records are in their slots, and a running process is the current one of its processor. -/
structure Attached (k : Kernel) : Prop where
  placed : k.procs.Placed
  current : ∀ i p, k.procs.at? i = some p → p.status = .running →
    ∃ c : Fin cpuCount, p.cpu = some c.val ∧ (k.cpus.get c).current = some p.pid

end Kernel

/-- A change that keeps the id of a process, lets it not begin to run, and lets it run on only on
its processor. -/
structure Process.Stays (p p' : Process) : Prop where
  pid : p'.pid = p.pid
  running : p'.status = .running → p.status = .running ∧ p'.cpu = p.cpu

namespace Process

variable {p p' : Process}

/-- Changes of a record let its process not begin to run, and run on only on its processor. -/
theorem Changes.stays (h : p.Changes p') : p.Stays p' :=
  ⟨h.pid, h.running⟩

/-- A process of the same standing stays where it is. -/
theorem SameStanding.stays (h : p.SameStanding p') : p.Stays p' :=
  ⟨h.pid, fun run => ⟨h.status ▸ run, h.cpu⟩⟩

instance : Std.Refl Stays := ⟨fun _ => ⟨rfl, fun run => ⟨run, rfl⟩⟩⟩

end Process

namespace Kernel

variable {k k' : Kernel} {p : Process} {pid : Pid}

/-! ## The invariant -/

namespace Attached

/-- At the beginning nobody runs. -/
theorem boot (clock : Clock) : (boot clock).Attached where
  placed _ _ h := nomatch h
  current _ _ h := nomatch h

/-- Records may change as long as nobody begins to run, and a processor may lose its current process
if that one does not run any more. -/
theorem of_each (h : k.Attached) (hprocs : k.procs.Each Process.Stays k'.procs)
    (hcpus : ∀ (c : Fin cpuCount) (pid : Pid), (k.cpus.get c).current = some pid →
      (k'.cpus.get c).current = some pid ∨ ¬ k'.board.Runs pid) : k'.Attached where
  placed := hprocs.placed (fun h => h.pid) h.placed
  current i p' hp' run := by
    obtain ⟨p, hp, hc⟩ := hprocs.exists_before hp'
    obtain ⟨hrun, hcpu⟩ := hc.running run
    obtain ⟨c, hpc, hcur⟩ := h.current i p hp hrun
    refine ⟨c, hcpu.trans hpc, ?_⟩
    rw [hc.pid]
    refine (hcpus c p.pid hcur).resolve_right fun hnot => hnot ⟨p', ?_, hc.pid, run⟩
    exact (hprocs.placed (fun h => h.pid) h.placed).at?_slot hp'

/-- What leads on keeps the invariant. -/
theorem of_leadsTo (h : k.Attached) (hk : k.LeadsTo k') : k'.Attached :=
  h.of_each (hk.procs.mono Process.Changes.stays) hk.cpus

/-- The record of a process may be replaced if it does not begin to run. -/
theorem put (h : k.Attached) (hp : k.procs.at? p'.pid.slot = some p) (hs : p.Stays p')
    (hk : k'.procs = k.procs.put p') (hcpus : k'.cpus = k.cpus) : k'.Attached := by
  refine h.of_each ?_ fun c pid hc => .inl (hcpus ▸ hc)
  rw [hk]
  exact (ProcessTable.Each.refl _).put hp hs

/-- Processes may come that do not run, and processes may go. -/
theorem of_at? (h : k.Attached) (hcpus : k'.cpus = k.cpus)
    (hat : ∀ i p, k'.procs.at? i = some p →
      k.procs.at? i = some p ∨ p.pid.slot = i ∧ p.status ≠ .running) : k'.Attached where
  placed i p hp := (hat i p hp).elim (h.placed i p) (·.1)
  current i p hp run := by
    rw [hcpus]
    exact (hat i p hp).elim (h.current i p · run) fun hp => absurd run hp.2

/-- What is said of processors follows from the invariant. -/
theorem exclusive (h : k.Attached) : k.Exclusive := by
  have same : ∀ p ∈ k.procs.processes, ∀ q ∈ k.procs.processes, p.pid = q.pid → p = q := by
    intro p hp q hq hpid
    obtain ⟨i, hi⟩ := ProcessTable.mem_processes.1 hp
    obtain ⟨j, hj⟩ := ProcessTable.mem_processes.1 hq
    have hslot := h.placed.at?_slot hi
    rw [hpid, h.placed.at?_slot hj] at hslot
    exact (Option.some.inj hslot).symm
  have current : ∀ p ∈ k.procs.processes, p.status = .running →
      ∃ c : Fin cpuCount, p.cpu = some c.val ∧ (k.cpus.get c).current = some p.pid := by
    intro p hp
    obtain ⟨i, hi⟩ := ProcessTable.mem_processes.1 hp
    exact h.current i p hi
  refine ⟨current, fun p hp q hq hprun hqrun hcpu => ?_, fun p hp q hq _ _ hpid => ?_,
    fun cpu d k' hstep p hp run hcpu => ?_⟩
  · obtain ⟨c, hpc, hcur⟩ := current p hp hprun
    obtain ⟨c', hqc, hcur'⟩ := current q hq hqrun
    have hcc : c = c' := Fin.ext (Option.some.inj (hpc.symm.trans (hcpu.trans hqc)))
    subst hcc
    exact same p hp q hq (Option.some.inj (hcur.symm.trans hcur'))
  · rw [same p hp q hq hpid]
  · obtain ⟨hcpu', n, w, state, he, hchoose, -⟩ := schedule_ok hstep
    obtain ⟨i, hi⟩ := ProcessTable.mem_processes.1 hp
    have hw := Population.expireSlots_spares _ h.placed he hi (by simp [run])
    have hafter := hchoose.spares hw run hcpu
    rw [← h.placed i p hi] at hafter
    exact ProcessTable.get?_pid hafter

end Attached

end Kernel

/-! ## Operations keep the invariant -/

/-- Whatever kernel it starts from, the operation keeps the invariant. -/
def Step.Attaches {α : Type} (x : Step α) : Prop :=
  ∀ k : Kernel, k.Attached → Leaves x k fun _ k' => k'.Attached

/-- An operation that leads on keeps the invariant. -/
theorem Step.Leads.attaches {α : Type} {x : Step α} (hx : Leads x) : Attaches x :=
  fun k h => (hx k).mono fun _ _ hk => h.of_leadsTo hk

theorem Step.Attaches.map {α β : Type} {x : Step α} {f : α → β} (hx : Attaches x) :
    Attaches (f <$> x) :=
  fun k h => leaves_map.2 (hx k h)

theorem Step.Attaches.bind {α β : Type} {x : Step α} {f : α → Step β} (hx : Attaches x)
    (hf : ∀ a, Attaches (f a)) : Attaches (x >>= f) :=
  fun k h => leaves_bind.2 ((hx k h).mono fun a k₁ h₁ => hf a k₁ h₁)

namespace Kernel

/-- Entering a process keeps the invariant. -/
theorem attaches_spawn (space : SpaceId) (frame : TrapFrame) : Attaches (spawn space frame) := by
  intro k h
  refine (leaves_spawn k space frame).mono fun a k' hk => ?_
  obtain ⟨e, -, rfl⟩ | ⟨pid, procs, -, ha, rfl⟩ := hk
  · exact h
  · obtain ⟨-, rfl⟩ := ProcessTable.alloc_ok ha
    refine h.of_at? rfl fun i p hp => ?_
    obtain ⟨hi, rfl⟩ | ⟨-, hp⟩ := ProcessTable.at?_put_cases hp
    · exact .inr ⟨hi, nofun⟩
    · exact .inl hp

/-- Reclaiming a process keeps the invariant. -/
theorem attaches_reclaim (pid : Pid) : Attaches (reclaim pid) := by
  intro k h
  refine (leaves_reclaim k pid).mono fun a k' hk => ?_
  obtain ⟨e, -, rfl⟩ | ⟨procs, -, hr, rfl⟩ := hk
  · exact h
  · obtain ⟨-, -, -, -, hat⟩ := ProcessTable.reclaim_ok hr
    refine h.of_at? rfl fun i p hp => .inl ?_
    have hp : procs.at? i = some p := hp
    rw [hat] at hp
    split at hp
    · cases hp
    · exact hp

/-- A processor that takes up a process names it as its current one, and the process that it let go
does not run any more. -/
theorem attaches_schedule (cpu : Nat) : Attaches (schedule cpu) := by
  intro k h d k' hstep
  obtain ⟨hcpu, n, w, state, he, hchoose, hcpus, -⟩ := schedule_ok hstep
  have hw := Population.expireSlots_each _ h.placed he
  have placed := hw.placed (fun h => h.pid) h.placed
  refine ⟨(hchoose.each placed).placed (fun h => h.pid) placed, fun i q hq run => ?_⟩
  obtain ⟨hqcpu, hcur⟩ | ⟨hq₁, hother⟩ := hchoose.running placed hq run
  · refine ⟨⟨cpu, hcpu⟩, hqcpu, ?_⟩
    rw [hcpus]
    have hset : (k.cpus.set cpu state).get ⟨cpu, hcpu⟩ = state := Vector.getElem_set_self hcpu
    rw [hset, hcur]
  · obtain ⟨p, hp, haside⟩ := hw.exists_before hq₁
    obtain ⟨c, hpc, hcur⟩ := h.current i p hp (haside.running run)
    have hqc : q.cpu = some c.val := haside.cpu.trans hpc
    rw [← haside.pid] at hcur
    have hne : cpu ≠ c.val := by
      rintro rfl
      exact hother hqc hcur
    refine ⟨c, hqc, ?_⟩
    have hset : (k.cpus.set cpu state).get c = k.cpus.get c :=
      Vector.getElem_set_ne hcpu c.isLt hne
    rw [hcpus, hset, hcur]

/-- A sweep keeps the invariant. -/
theorem attaches_sweepNow : Attaches sweepNow :=
  fun _ h => (leaves_sweepNow h.placed).mono fun _ _ hk => h.of_leadsTo hk

/-- A tick of the timer keeps the invariant. -/
theorem attaches_timerTick : Attaches timerTick := by
  intro k h
  rw [timerTick, leaves_bind, leaves_get]
  split
  · exact leaves_pure.2 h
  · rw [leaves_bind, leaves_set]
    exact attaches_sweepNow _ ⟨h.placed, h.current⟩

/-- A return to user code keeps the invariant, also if it kills the process. -/
theorem attaches_trapReturn (pid : Pid) : Attaches (trapReturn pid) := by
  intro k h
  refine (leaves_trapReturn k pid).mono fun _ k' ⟨a, k₁, hd, hk⟩ => ?_
  refine Attached.of_leadsTo ?_ hk
  obtain ⟨e, -, rfl⟩ | ⟨p, d, p', m, hp, hpid, -, hdel, -, hprocs, hcpus, -⟩ :=
    leaves_deliver k pid a k₁ hd
  · exact h
  · have hs := (Process.deliver_delivers hdel).sameStanding
    rw [← hpid, ← hs.pid] at hp
    exact h.put hp hs.stays hprocs hcpus

/-- A process whose registers change runs where it ran. -/
theorem attaches_registers (pid : Pid) (frame : TrapFrame) :
    Attaches (modify fun k : Kernel =>
      { k with procs := k.procs.update pid fun p => { p with frame } }) := by
  intro k h
  rw [leaves_modify]
  cases hget : k.procs.get? pid with
  | none =>
    rw [ProcessTable.update, hget]
    exact ⟨h.placed, h.current⟩
  | some p =>
    obtain ⟨hat, rfl⟩ := ProcessTable.get?_eq_some.1 hget
    have hs : p.Stays { p with frame } := ⟨rfl, fun run => ⟨run, rfl⟩⟩
    have hput : k.procs.update p.pid (fun p => { p with frame }) = k.procs.put { p with frame } :=
      ProcessTable.update_eq_put hget rfl
    refine h.of_each ?_ fun c pid hc => .inl hc
    rw [hput]
    exact (ProcessTable.Each.refl _).put hat hs

end Kernel

/-- Every event keeps the invariant. -/
theorem Event.attaches_perform (e : Event) : Attaches e.perform := by
  cases e with
  | spawn space frame => exact .map (Kernel.attaches_spawn space frame)
  | syscall pid => exact .map (Kernel.leads_syscall pid).attaches
  | schedule cpu => exact .map (Kernel.attaches_schedule cpu)
  | timerTick => exact .map Kernel.attaches_timerTick
  | sweep => exact .map Kernel.attaches_sweepNow
  | trapReturn pid => exact .map (Kernel.attaches_trapReturn pid)
  | sendSignal target n value => exact .map (Kernel.leads_sendSignal target n value).attaches
  | futexWake address most => exact .map (Kernel.leads_futexWake address most).attaches
  | destroy pid => exact .map (Kernel.leads_destroy pid).attaches
  | reclaim pid => exact .map (Kernel.attaches_reclaim pid)
  | registers pid frame => exact .map (Kernel.attaches_registers pid frame)
  | advance | setClock | memory =>
    exact .map fun k h => leaves_modify.2 ⟨h.placed, h.current⟩

namespace Operation

/-- Every operation keeps the invariant. -/
theorem attaches_perform (o : Operation) : Attaches o.perform := by
  cases o with
  | event e => exact .map e.attaches_perform
  | futexWait pid address expected =>
    exact .map (Kernel.leads_futexWait pid address expected).attaches
  | futexUnlink pid address => exact .map (Kernel.leads_futexUnlink pid address).attaches

/-- Any number of operations keep the invariant. -/
theorem attaches_forM (os : List Operation) : Attaches (os.forM perform) := by
  induction os with
  | nil => exact (Leads.pure _).attaches
  | cons o os ih => exact .bind o.attaches_perform fun _ => ih

/-- Whatever operations anybody asks for, in whatever order, and for processes in whatever state: as
long as none of them stops, a process that runs is the current one of its processor, a processor
runs one process at most, a process runs on one processor at most, and a processor that asks for a
process leaves those alone that others run. -/
theorem processors_exclusive {clock : Clock} {os : List Operation} {k : Kernel}
    (h : (os.forM perform) (.boot clock) = .ok () k) : k.Exclusive :=
  (attaches_forM os _ (.boot clock) () k h).exclusive

/-- Two processes start on two processors. The first one blocks in a receive, the second one sends
it a message, and the processor of the second one takes it up. -/
def takenUpElsewhere : List Operation :=
  [.event (.spawn 0 ((TrapFrame.newUser 0x1000 0x2000).set .a7 1101)),
    .event (.spawn 1 (((TrapFrame.newUser 0x1000 0x2000).set .a7 1100).set .a0 256)),
    .event (.schedule 0), .event (.schedule 1), .event (.syscall (.ofSlot 1 0)),
    .event (.syscall (.ofSlot 1 1)), .event (.schedule 1)]

/-- Two processors name the first process as their current one, and it runs on the second of them
only. -/
theorem processors_exclusive_of_takenUpElsewhere :
    ∃ k, (takenUpElsewhere.forM perform) (.boot default) = .ok () k ∧ k.Exclusive ∧
      (k.cpus.get 0).current = some (.ofSlot 1 0) ∧ (k.cpus.get 1).current = some (.ofSlot 1 0) ∧
      ∃ p ∈ k.procs.processes, p.pid = .ofSlot 1 0 ∧ p.status = .running ∧ p.cpu = some 1 := by
  have hrun : (match (takenUpElsewhere.forM perform) (.boot default) with
      | .ok () k => (k.cpus.get 0).current = some (.ofSlot 1 0) &&
          (k.cpus.get 1).current = some (.ofSlot 1 0) &&
          k.procs.processes.any fun p =>
            p.pid = .ofSlot 1 0 ∧ p.status = .running ∧ p.cpu = some 1
      | .error _ _ => false) = true := by
    decide +kernel
  generalize hr : (takenUpElsewhere.forM perform) (.boot default) = r at hrun
  cases r with
  | error => cases hrun
  | ok _ k =>
    simp only [Bool.and_eq_true, decide_eq_true_eq, List.any_eq_true] at hrun
    obtain ⟨⟨h₀, h₁⟩, p, hp⟩ := hrun
    exact ⟨k, rfl, processors_exclusive hr, h₀, h₁, p, hp⟩

end Operation

end SyncKernel
