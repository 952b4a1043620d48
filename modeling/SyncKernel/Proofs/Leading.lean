import SyncKernel.Proofs.Aside

/-!
# Where operations lead

What an operation of the kernel does to all records at once: each changes by `Process.Change`, a
processor loses its current process only if that one does not run any more, and the clock and the
time of the last sweep stay (`Kernel.LeadsTo`). All operations but the choice of a process by a
processor, the coming and going of processes, and the delivery of a signal do only that, whoever
asks for them (`Step.Leads`), the system calls among them (`Kernel.leads_syscall`). What entering a
process, reclaiming one and delivering a signal do is said in full (`Kernel.leaves_spawn`,
`Kernel.leaves_reclaim`, `Kernel.leaves_deliver`).
-/

namespace SyncKernel

open Step

/-! ## Kernels -/

/-- The records of one kernel changed to those of another; whoever was the current process of a
processor still is, or does not run; the slots that processors picked last, the clock and the time
of the last sweep are the same. -/
structure Kernel.LeadsTo (k k' : Kernel) : Prop where
  procs : k.procs.Each Process.Changes k'.procs
  cpus : ∀ (c : Fin cpuCount) (pid : Pid), (k.cpus.get c).current = some pid →
    (k'.cpus.get c).current = some pid ∨ ¬ k'.board.Runs pid
  lastSlot : ∀ c : Fin cpuCount, (k'.cpus.get c).lastSlot = (k.cpus.get c).lastSlot
  clock : k'.clock = k.clock
  lastSweep : k'.lastSweep = k.lastSweep

namespace Kernel.LeadsTo

variable {k k₁ k' : Kernel} {pid : Pid}

theorem refl (k : Kernel) : k.LeadsTo k :=
  ⟨.refl _, fun _ _ h => .inl h, fun _ => rfl, rfl, rfl⟩

/-- Who runs afterwards ran before. -/
theorem runs (h : k.LeadsTo k') (hr : k'.board.Runs pid) : k.board.Runs pid := by
  obtain ⟨p', hp', rfl, run⟩ := hr
  obtain ⟨p, hp, hc⟩ := h.procs.exists_before hp'
  rw [hc.pid] at hp
  exact ⟨p, hp, hc.pid.symm, (hc.running run).1⟩

theorem trans (h : k.LeadsTo k₁) (h' : k₁.LeadsTo k') : k.LeadsTo k' where
  procs := h.procs.trans h'.procs
  cpus c pid hc := by
    obtain hc | hr := h.cpus c pid hc
    · exact h'.cpus c pid hc
    · exact .inr fun hr' => hr (h'.runs hr')
  lastSlot c := (h'.lastSlot c).trans (h.lastSlot c)
  clock := h'.clock.trans h.clock
  lastSweep := h'.lastSweep.trans h.lastSweep

/-- Only records changed. -/
theorem of_procs (h : k.procs.Each Process.Changes k'.procs) (hcpus : k'.cpus = k.cpus)
    (hclock : k'.clock = k.clock) (hsweep : k'.lastSweep = k.lastSweep) : k.LeadsTo k' :=
  ⟨h, fun _ _ hc => .inl (hcpus ▸ hc), fun _ => by rw [hcpus], hclock, hsweep⟩

/-- Records changed aside from signals. -/
theorem of_aside {w : Population} (h : k.procs.Each Process.Aside w.procs) :
    k.LeadsTo { k with toPopulation := w } :=
  .of_procs (h.mono fun h => .single (.aside h)) rfl rfl rfl

end Kernel.LeadsTo

/-! ## Operations -/

namespace Step

variable {α β : Type}

/-- Whatever kernel it starts from, the operation leads to the one it leaves. -/
def Leads (x : Step α) : Prop :=
  ∀ k, Leaves x k fun _ k' => k.LeadsTo k'

namespace Leads

protected theorem pure (a : α) : Leads (pure a : Step α) :=
  fun k => leaves_pure.2 (.refl k)

theorem get : Leads (get : Step Kernel) :=
  fun k => leaves_get.2 (.refl k)

/-- A notice changes no record. -/
theorem note (n : Notice) : Leads (note n) :=
  fun k => leaves_note.2 (.of_aside (.refl k.procs))

/-- What leads on step by step leads on as a whole. -/
protected theorem bind {x : Step α} {f : α → Step β} (hx : Leads x) (hf : ∀ a, Leads (f a)) :
    Leads (x >>= f) := fun k =>
  leaves_bind.2 ((hx k).mono fun a k₁ h => (hf a k₁).mono fun _ _ h' => h.trans h')

/-- An operation leads on whether or not its answer is used. -/
theorem discard {x : Step α} (hx : Leads x) : Leads (discard x) :=
  fun k => leaves_discard.2 (hx k)

/-- An operation on the population leads on if it leaves all signals and lets nobody begin to run.
-/
theorem ofPopulation {f : Population → Except Fault (α × Population)}
    (hf : ∀ w a w', f w = .ok (a, w') → w.procs.Each Process.Aside w'.procs) :
    Leads (ofPopulation f) :=
  fun k => leaves_ofPopulation.2 fun a w h => .of_aside (hf k.toPopulation a w h)

/-- An operation on the record of a live process leads on if its change of the record is allowed. -/
theorem ofLive {pid : Pid} {f : Process → Memory → Except Fault (Except Errno α × Process × Memory)}
    (hf : ∀ p m a p' m', p.status ≠ .dying → f p m = .ok (a, p', m') → p.Changes p') :
    Leads (ofLive pid f) := fun k => by
  refine leaves_ofLive.2 ⟨fun _ _ => .refl k, fun p a p' m hl hp' => ?_⟩
  obtain ⟨hget, live⟩ := ProcessTable.lookup_eq_ok.1 hl
  obtain ⟨hat, rfl⟩ := ProcessTable.get?_eq_some.1 hget
  have hc := hf p k.memory a p' m live hp'
  rw [← hc.pid] at hat
  exact .of_procs ((ProcessTable.Each.refl _).put hat hc) rfl rfl rfl

end Leads

end Step

namespace Kernel

/-! ## Futexes -/

/-- A process that begins to wait on a futex does not run any more. -/
theorem leads_futexWait (pid : Pid) (address : UInt64) (expected : UInt32) :
    Leads (futexWait pid address expected) := fun k => by
  rw [futexWait, leaves_bind, leaves_get]
  split
  · exact leaves_throw.2 trivial
  · next a t w hw =>
    rw [leaves_bind, leaves_set, leaves_pure]
    exact .of_procs ((Population.futexWait_each hw).mono fun h => .single (.aside h)) rfl rfl rfl

/-- Waking waiters makes them runnable, and lets none of them run. -/
theorem leads_futexWake (address : UInt64) (most : Nat) : Leads (futexWake address most) :=
  fun k => by
  have hw := Population.wakeQueue_each address (k.futexes.bucket address) most k.toPopulation
  rw [futexWake, leaves_bind, leaves_get, leaves_bind, leaves_set, leaves_pure]
  refine .of_procs (ProcessTable.Each.mono (fun h => .single (.aside h)) ?_) rfl rfl rfl
  rw [Population.futexWake]
  dsimp only
  split <;> exact hw

/-- Taking a process out of a queue changes no record. -/
theorem leads_futexUnlink (pid : Pid) (address : UInt64) : Leads (futexUnlink pid address) :=
  fun k => by
  rw [futexUnlink, leaves_bind, leaves_get, leaves_bind, leaves_set, leaves_pure]
  exact .of_procs (.refl _) rfl rfl rfl

/-- Waking the waiters of a list of locks lets nobody run. -/
theorem leads_wakeLocks (locks : List UInt64) : Leads (wakeLocks locks) := by
  induction locks with
  | nil => exact .pure _
  | cons address rest ih => exact .bind (leads_futexWake address 1) fun _ => ih

/-! ## Destroying a process -/

/-- Marking locks leaves everything but the memory and the journal. -/
theorem leaves_markLocks (space : SpaceId) (pid : Pid) (locks : List UInt64) : ∀ k,
    Leaves (markLocks space pid locks) k fun _ k' => k'.board = k.board ∧ k'.clock = k.clock ∧
      k'.lastSweep = k.lastSweep := by
  induction locks with
  | nil => exact fun k => leaves_pure.2 ⟨rfl, rfl, rfl⟩
  | cons address rest ih =>
    intro k
    rw [markLocks, leaves_bind, leaves_get]
    split
    · next m _ =>
      rw [leaves_bind, leaves_set, leaves_bind, leaves_note]
      exact ih (({ k with memory := m } : Kernel).noted _)
    · exact ih k

/-- No other process is taken from a processor. -/
theorem leaves_leaveCpu (k : Kernel) (pid : Pid) (cpu : Option Nat) :
    Leaves (leaveCpu pid cpu) k fun _ k' => k'.procs = k.procs ∧ k'.clock = k.clock ∧
      k'.lastSweep = k.lastSweep ∧ ∀ c : Fin cpuCount,
        (k'.cpus.get c).lastSlot = (k.cpus.get c).lastSlot ∧ ∀ q : Pid,
          (k.cpus.get c).current = some q → (k'.cpus.get c).current = some q ∨ q = pid := by
  unfold leaveCpu
  split
  · exact leaves_pure.2 ⟨rfl, rfl, rfl, fun _ => ⟨rfl, fun _ h => .inl h⟩⟩
  next c =>
  rw [leaves_bind, leaves_get]
  split
  · next hc =>
    split
    · next hcur =>
      refine leaves_set.2 ⟨rfl, rfl, rfl, fun d => ?_⟩
      by_cases hcd : c = d
      · subst hcd
        have hset : (k.cpus.set d { k.cpus[d] with current := none }).get d =
            { k.cpus[d] with current := none } := Vector.getElem_set_self hc
        have hlast := congrArg Cpu.lastSlot hset
        refine ⟨hlast, fun q hq => ?_⟩
        exact .inr (Option.some.inj (hq.symm.trans hcur))
      · have hset : (k.cpus.set c { k.cpus[c] with current := none }).get d = k.cpus.get d :=
          Vector.getElem_set_ne hc d.isLt hcd
        exact ⟨by rw [hset], fun q hq => .inl (hset ▸ hq)⟩
    · exact leaves_pure.2 ⟨rfl, rfl, rfl, fun _ => ⟨rfl, fun _ h => .inl h⟩⟩
  · exact leaves_throw.2 trivial

/-- A process that is destroyed does not run any more. -/
theorem leads_destroy (pid : Pid) : Leads (destroy pid) := fun k => by
  rw [destroy, leaves_bind, leaves_get]
  split
  · exact leaves_pure.2 (.refl k)
  next p hp =>
  obtain ⟨hat, rfl⟩ := ProcessTable.get?_eq_some.1 (ProcessTable.lookup_eq_ok.1 hp).1
  dsimp only
  rw [leaves_bind]
  refine (leaves_markLocks _ _ _ k).mono fun _ k₁ hmarked => ?_
  obtain ⟨hb, hclock, hsweep⟩ := hmarked
  rw [leaves_bind]
  refine (leaves_leaveCpu k₁ p.pid p.cpu).mono fun _ k₂ hleft => ?_
  obtain ⟨hprocs₂, hclock₂, hsweep₂, hcpus₂⟩ := hleft
  have hprocs : k₂.procs = k.procs := hprocs₂.trans (congrArg Board.procs hb)
  have hcpus : k₁.cpus = k.cpus := congrArg Board.cpus hb
  rw [leaves_bind, leaves_modify]
  -- here the process has left its processor and does not run any more
  have buried : k.LeadsTo { k₂ with procs := k₂.procs.put { p.bury with futex := none } } := by
    refine ⟨?_, fun c q hq => ?_, fun c => ?_, hclock₂.trans hclock, hsweep₂.trans hsweep⟩
    · rw [hprocs]
      exact (ProcessTable.Each.refl _).put hat (.single .buried)
    · refine ((hcpus₂ c).2 q (hcpus ▸ hq)).imp_right ?_
      rintro rfl ⟨p', hp', hpid, run⟩
      rw [hpid] at hp'
      have hself : (k₂.procs.put { p.bury with futex := none }).at? p.pid.slot =
          some { p.bury with futex := none } :=
        ProcessTable.at?_put_self
      cases Option.some.inj (hself.symm.trans hp')
      cases run
    · exact hcpus ▸ (hcpus₂ c).1
  refine Leaves.mono (Q := fun _ k' => Kernel.LeadsTo _ k') ?_ fun _ _ h => buried.trans h
  have rest : ∀ locks, Leads (do
      wakeLocks locks
      note (.destroyed p.pid)
      return (.ok () : Except Errno Unit)) :=
    fun locks => .bind (leads_wakeLocks locks) fun _ => .bind (.note _) fun _ => .pure _
  split
  · exact Leads.bind (.discard (leads_futexUnlink _ _)) (fun _ => rest _) _
  · exact rest _ _

/-- Killing a process is destroying it, with a notice. -/
theorem leads_kill (pid : Pid) (why : KillReason) : Leads (kill pid why) := by
  refine .bind (.note _) fun _ => .bind (leads_destroy pid) fun a => ?_
  cases a with
  | ok => exact .pure _
  | error => exact .note _

/-! ## Signals -/

/-- A signal wakes its target or kills it, but does not let it run. -/
theorem leads_sendSignal (target : Pid) (n : Nat) (value : UInt64) :
    Leads (sendSignal target n value) := by
  refine .bind (.ofLive fun p m a p' m' live h => .single (.sent live h)) fun a => ?_
  cases a with
  | error => exact .pure _
  | ok sent =>
    refine .bind ?_ fun _ => ?_
    · cases sent with
      | handed => exact .note _
      | queued | merged | lost => exact .pure _
    · split
      · exact .bind (.note _) fun _ => leads_destroy target
      · exact .pure _

/-! ## System calls -/

variable (pid : Pid) (args : SyscallArgs)

/-- The futex call lets nobody begin to run. -/
theorem leads_serveFutex : Leads (serveFutex pid args) := by
  rw [serveFutex, if_neg (by simp [futexEnabled])]
  split
  · refine .bind (leads_futexWait _ _ _) fun a => ?_
    cases a <;> exact .pure _
  split
  · exact .bind (leads_futexWake _ _) fun _ => .pure _
  · exact .pure _

/-- Registering a list of locks changes the record of the caller only. -/
theorem leads_serveSetRobustList : Leads (serveSetRobustList pid args) := by
  refine .ofLive fun p m a p' m' _ h => ?_
  split at h
  · cases h
    exact .refl
  · next q hq =>
    cases h
    exact .single (.aside (.robust hq))

/-- Yielding makes the caller runnable. -/
theorem leads_serveYield : Leads (serveYield pid) := by
  refine .bind (.ofLive fun p m a p' m' _ h => ?_) fun a => ?_
  · cases h
    exact .single (.aside (.answer p 0))
  · cases a with
    | error => exact .pure _
    | ok =>
      refine .bind (fun k => ?_) fun _ => .pure _
      exact leaves_modify.2 (.of_aside (Population.yield_each k.toPopulation pid))

/-- Exchanging an action changes the record of the caller only. -/
theorem leads_serveSignalAction : Leads (serveSignalAction pid args) := by
  unfold serveSignalAction
  dsimp only
  split
  · exact .pure _
  · refine .bind (.ofLive fun p m a p' m' _ h => ?_) fun a => ?_
    · exact .single (.action (Except.ok.inj h))
    · cases a <;> exact .pure _

/-- Waiting for a signal changes the record of the caller only. -/
theorem leads_serveSignalWait : Leads (serveSignalWait pid args) := by
  refine .bind (.ofLive fun p m a p' m' live h => ?_) fun a => ?_
  · exact .single (.await live (Except.ok.inj h))
  · cases a with
    | error => exact .pure _
    | ok taken =>
      refine .bind ?_ fun _ => .pure _
      cases taken with
      | some => exact .pure _
      | none => exact .note _

/-- Sending a signal by a system call lets nobody begin to run. -/
theorem leads_serveSignalSend : Leads (serveSignalSend pid args) := by
  unfold serveSignalSend
  split
  · exact .pure _
  · refine .bind (leads_sendSignal _ _ _) fun a => ?_
    cases a <;> exact .pure _

/-- Leaving a handler changes the registers and the mask of the caller, or kills it. -/
theorem leads_serveSignalReturn : Leads (serveSignalReturn pid args) := by
  refine .bind (.ofLive fun p m a p' m' _ h => ?_) fun a => ?_
  · rw [leaveHandler] at h
    split at h
    · next hl =>
      split at hl
      · cases hl
        cases h
        exact .refl
      · next q hq =>
        cases hl
        cases h
        exact .single (.leave hq)
  · cases a with
    | error => exact .pure _
    | ok a =>
      cases a with
      | ok => exact .bind (.note _) fun _ => .pure _
      | error => exact .bind (leads_kill _ _) fun _ => .pure _

/-- Registering an entry changes the record of the caller only. -/
theorem leads_serveSignalEntry : Leads (serveSignalEntry pid args) := by
  refine .ofLive fun p m a p' m' _ h => ?_
  split at h
  · cases h
    exact .refl
  · next q hq =>
    cases h
    exact .single (.entry hq)

/-- A send that does not wait lets nobody begin to run. -/
theorem leads_serveTrySend : Leads (serveTrySend pid args) := by
  unfold serveTrySend
  split
  · exact .pure _
  · refine .bind (.ofPopulation fun w a w' h => Population.trySend_each h) fun a => ?_
    cases a <;> exact .pure _

/-- A send that may wait lets nobody begin to run. -/
theorem leads_serveSendTimeout : Leads (serveSendTimeout pid args) := by
  unfold serveSendTimeout
  split
  · exact .pure _
  · exact .bind .get fun k => .bind (.ofPopulation fun w a w' h => Population.sendTimeout_each h)
      fun _ => .pure _

/-- A receive lets nobody begin to run but its caller, which runs already. -/
theorem leads_serveReceive (timeout : Option Millis) : Leads (serveReceive pid args timeout) :=
  .bind .get fun _ => .bind (.ofPopulation fun _ _ _ h => Population.receive_each h)
    fun _ => .pure _

/-- No system call lets anybody begin to run. -/
theorem leads_serve (call : Syscall) : Leads (serve pid args call) := by
  cases call with
  | futex => exact leads_serveFutex pid args
  | setRobustList => exact leads_serveSetRobustList pid args
  | yield => exact leads_serveYield pid
  | signalAction => exact leads_serveSignalAction pid args
  | signalWait => exact leads_serveSignalWait pid args
  | signalSend => exact leads_serveSignalSend pid args
  | signalReturn => exact leads_serveSignalReturn pid args
  | signalEntry => exact leads_serveSignalEntry pid args
  | trySend => exact leads_serveTrySend pid args
  | sendTimeout => exact leads_serveSendTimeout pid args
  | receive => exact leads_serveReceive pid args none
  | receiveTimeout => exact leads_serveReceive pid args (some args.a2)

/-- Setting the result of a call changes a register only. -/
theorem leads_setReturn (value : UInt64) : Leads (setReturn pid value) := fun k => by
  refine leaves_modify.2 (.of_procs ?_ rfl rfl rfl)
  cases hget : k.procs.get? pid with
  | none =>
    rw [ProcessTable.update, hget]
    exact .refl _
  | some p =>
    obtain ⟨hat, rfl⟩ := ProcessTable.get?_eq_some.1 hget
    rw [ProcessTable.update_eq_put hget rfl]
    exact (ProcessTable.Each.refl _).put hat (.single (.aside (.answer p value)))

/-- The end of a system call. -/
theorem leads_finish (outcome : SyscallOutcome) : Leads (match outcome with
    | .returned value => do setReturn pid value; return outcome
    | _ => return outcome) := by
  cases outcome with
  | returned value => exact .bind (leads_setReturn pid value) fun _ => .pure _
  | blocked | yielded | restored | exited => exact .pure _

/-- A system call leads to the kernel it leaves, whatever process asks for it. -/
theorem leads_syscall : Leads (syscall pid) := by
  refine .bind .get fun k => ?_
  split
  · exact .pure _
  next p _ =>
  refine .bind (.note _) fun _ => ?_
  dsimp only
  split
  · exact .bind (leads_serve _ _ _) fun answer => leads_finish pid _
  · exact .bind (.pure _) fun answer => leads_finish pid _

/-! ## Operations that do more -/

/-- A sweep leads to the kernel it leaves, if records are in their slots. -/
theorem leaves_sweepNow {k : Kernel} (placed : k.procs.Placed) :
    Leaves sweepNow k fun _ k' => k.LeadsTo k' := by
  rw [sweepNow, leaves_bind, leaves_get, leaves_ofPopulation]
  exact fun _ _ h => .of_aside (Population.sweepSlots_each _ placed h)

/-- Entering a process changes the table and the journal. -/
theorem leaves_spawn (k : Kernel) (space : SpaceId) (frame : TrapFrame) :
    Leaves (spawn space frame) k fun a k' => (∃ e, a = .error e ∧ k' = k) ∨
      ∃ pid procs, a = .ok pid ∧ k.procs.alloc space frame = .ok (pid, procs) ∧
        k' = ({ k with procs } : Kernel).noted (.spawned pid) := by
  rw [spawn, leaves_bind, leaves_get]
  split
  · next e _ => exact leaves_pure.2 (.inl ⟨e, rfl, rfl⟩)
  · next pid procs ha =>
    rw [leaves_bind, leaves_set, leaves_bind, leaves_note, leaves_pure]
    exact .inr ⟨pid, procs, rfl, ha, rfl⟩

/-- Reclaiming a process changes the table. -/
theorem leaves_reclaim (k : Kernel) (pid : Pid) :
    Leaves (reclaim pid) k fun a k' => (∃ e, a = .error e ∧ k' = k) ∨
      ∃ procs, a = .ok () ∧ k.procs.reclaim pid = .ok (.ok procs) ∧ k' = { k with procs } := by
  rw [reclaim, leaves_bind, leaves_get]
  split
  · exact leaves_throw.2 trivial
  · next e _ => exact leaves_pure.2 (.inl ⟨e, rfl, rfl⟩)
  · next procs hr =>
    split
    · exact leaves_throw.2 trivial
    · rw [leaves_bind, leaves_set, leaves_pure]
      exact .inr ⟨procs, rfl, hr, rfl⟩

/-- Delivering a signal changes the record of the process and the memory. -/
theorem leaves_deliver (k : Kernel) (pid : Pid) :
    Leaves (deliver pid) k fun a k' => (∃ e, a = .error e ∧ k' = k) ∨
      ∃ p d p' m', k.procs.at? pid.slot = some p ∧ p.pid = pid ∧ p.status ≠ .dying ∧
        p.deliver k.memory = .ok (d, p', m') ∧ a = .ok d ∧ k'.procs = k.procs.put p' ∧
        k'.cpus = k.cpus ∧ k'.clock = k.clock ∧ k'.lastSweep = k.lastSweep := by
  rw [deliver, leaves_bind, leaves_ofLive]
  refine ⟨fun e _ => leaves_pure.2 (.inl ⟨e, rfl, rfl⟩), fun p a p' m hl hd => ?_⟩
  obtain ⟨hget, live⟩ := ProcessTable.lookup_eq_ok.1 hl
  obtain ⟨hat, rfl⟩ := ProcessTable.get?_eq_some.1 hget
  simp only [signalsEnabled, if_true] at hd
  cases hdel : p.deliver k.memory with
  | error fault => simp [hdel, Except.map] at hd
  | ok r =>
    obtain ⟨d, q, m'⟩ := r
    simp only [hdel, Except.map] at hd
    cases hd
    rw [leaves_bind]
    cases d with
    | handled | unwritable =>
      exact leaves_note.2 (leaves_pure.2
        (.inr ⟨p, _, p', m, hat, rfl, live, hdel, rfl, rfl, rfl, rfl, rfl⟩))
    | none | ignored | fatal =>
      exact leaves_pure.2 (leaves_pure.2
        (.inr ⟨p, _, p', m, hat, rfl, live, hdel, rfl, rfl, rfl, rfl, rfl⟩))

/-- A return to user code delivers a signal and leads on from there: the process is destroyed if the
signal is fatal to it, or resumes. -/
theorem leaves_trapReturn (k : Kernel) (pid : Pid) :
    Leaves (trapReturn pid) k fun _ k' => ∃ a k₁, deliver pid k = .ok a k₁ ∧ k₁.LeadsTo k' := by
  have ended : ∀ n,
      Leads (do note (.signalFatal pid n); kill pid .signal; return TrapReturn.killed) :=
    fun n => .bind (.note _) fun _ => .bind (leads_kill pid _) fun _ => .pure _
  rw [trapReturn, leaves_bind]
  intro a k₁ hd
  refine Leaves.mono (Q := fun _ k' => k₁.LeadsTo k') ?_ fun _ _ h => ⟨a, k₁, hd, h⟩
  cases a with
  | error => exact Leads.pure _ k₁
  | ok delivery =>
    cases delivery with
    | fatal n => exact ended n k₁
    | unwritable n _ => exact ended n k₁
    | none | ignored | handled =>
      refine Leads.bind .get (fun k => ?_) k₁
      split <;> exact .pure _

end Kernel

end SyncKernel
