import SyncKernel.Proofs.Calls
import SyncKernel.Proofs.Mortality

/-!
# What the outcome of a system call tells

Whoever resumes a process after a system call decides from the outcome alone whether to go back to
it or to look for another one. `SyscallOutcome.Tells` says what the outcome promises: after a
returned word the caller runs on, with the word in its register; a caller that is blocked, or that
yielded, does not run; one whose registers were replaced goes back to user mode, whatever frame it
named; and one that ended waits for nothing. What a call does to its caller is known
(`Kernel.serve_treats`), so it is left to look at each answer. It does not matter what the registers
ask for, so the promise is kept for all that they can hold (`Run.outcome_tells`).
-/

namespace SyncKernel

open Board Step

/-! ## Promises -/

/-- The kernel with other registers for a process. -/
def Kernel.withFrame (k : Kernel) (p : Process) (frame : TrapFrame) : Kernel :=
  { k with procs := k.procs.put { p with frame } }

/-- The process `p` still runs, on the processor that it ran on. -/
structure Process.RunsOn (k k' : Kernel) (p p' : Process) : Prop where
  status : p'.status = .running
  cpu : p'.cpu = p.cpu
  current : ∀ c : Fin cpuCount, (k.cpus.get c).current = some p.pid →
    (k'.cpus.get c).current = some p.pid

/-- The process is dying and waits for nothing: it stands in no futex queue, no message is on its
way, and no signal is awaited. -/
structure Process.Gone (k : Kernel) (p : Process) : Prop where
  status : p.status = .dying
  futex : p.futex = none
  queued : k.futexes.isQueued p.pid = false
  receiving : p.receive.receiving = false
  sending : p.send.sending = false
  wait : p.signal.wait = none

/-- What the outcome of a system call tells of its caller, which had the record `p` before the call
and has the record `p'` after it. -/
def SyscallOutcome.Tells (o : SyscallOutcome) (k k' : Kernel) (p p' : Process) : Prop :=
  match o with
  | .returned value => p.RunsOn k k' p' ∧ p'.frame.get .a0 = value ∧ p.frame.SameButResult p'.frame
  | .blocked => p'.status = .blocked ∧ p.frame.SameButResult p'.frame
  | .yielded => p'.status = .runnable ∧ p'.frame.get .a0 = 0 ∧ p.frame.SameButResult p'.frame
  | .restored => p.RunsOn k k' p' ∧ p'.frame.fromUser = true ∧
      p'.frame.get .status &&& TrapFrame.interruptBit = TrapFrame.interruptBit ∧
      p'.signal.mask.contains killSignal = false
  | .exited => p'.Gone k'

/-! ## Callers -/

/-- A frame that returns to user code returns with interrupts on. -/
theorem TrapFrame.interrupts_forceUser (f : TrapFrame) :
    f.forceUser.get .status &&& interruptBit = interruptBit := by
  have hbits : ∀ w : UInt64,
      (w &&& ~~~fromKernelBit ||| interruptBit) &&& interruptBit = interruptBit := by
    intro w
    refine UInt64.toBitVec_inj.1 (BitVec.eq_of_getLsbD_eq fun i hi => ?_)
    simp only [UInt64.toBitVec_and, UInt64.toBitVec_or, BitVec.getLsbD_and, BitVec.getLsbD_or]
    grind
  rw [forceUser, get_set, if_pos rfl, hbits]

/-- Whoever still runs after an operation is still the current process of its processor. -/
theorem Kernel.LeadsTo.runsOn {k k' : Kernel} {p p' : Process} (h : k.LeadsTo k')
    (hp' : k'.procs.get? p.pid = some p') (status : p'.status = .running) (cpu : p'.cpu = p.cpu) :
    p.RunsOn k k' p' where
  status
  cpu
  current c hc := by
    obtain ⟨hat, hpid⟩ := ProcessTable.get?_eq_some.1 hp'
    exact (h.cpus c _ hc).resolve_right fun hnot => hnot ⟨p', hpid ▸ hat, hpid, status⟩

namespace Process

variable {p p' : Process} {call : Syscall} {args : SyscallArgs} {a : Except Errno SyscallOutcome}

/-- A process that runs is not woken by a signal: it goes on as it was. -/
theorem Signalled.goesOn {m m' : Memory} {n : Nat} {value : UInt64} {sent : Sent}
    (h : p.Signalled m n value (.ok sent) p' m') (hp : p.Settled) (run : p.status = .running) :
    p.GoesOn p' := by
  have awake : p.signal.wait = none := hp.wait_eq_none (by simp [run])
  cases h with
  | merged | queued => exact ⟨rfl, rfl, rfl, fun _ _ => rfl⟩
  | interrupted _ _ hw | handed hw | lost hw => cases awake.symm.trans hw

/-- A caller to which a word is returned goes on. -/
theorem Called.goesOn_of_word (h : p.Called call args a p') (hp : p.Settled)
    (run : p.status = .running) {value : UInt64} (ha : returnWord a = some value) :
    p.GoesOn p' := by
  cases h with
  | goesOn _ h => exact h
  | exchanged _ h => exact (exchangeAction_goesOn h).1
  | took => exact ⟨rfl, rfl, rfl, fun _ _ => rfl⟩
  | signalled _ _ h => exact (signalled_of_sendSignal h).goesOn hp run
  | blocks | waits | yields | leaves | dies => cases ha

/-- A caller keeps its id. -/
theorem Called.pid (h : p.Called call args a p') : p'.pid = p.pid := by
  cases h with
  | goesOn _ h => exact h.pid
  | exchanged _ h => exact (exchangeAction_goesOn h).1.pid
  | signalled _ _ h => exact (signalled_of_sendSignal h).pid
  | blocks hpid => exact hpid
  | took | waits | yields | leaves | dies => rfl

/-- If no word is returned, the outcome tells what has become of the caller. -/
theorem Called.tells {k k' : Kernel} {o : SyscallOutcome} (h : p.Called call args (.ok o) p')
    (hv : returnWord (.ok o) = none) (run : p.status = .running) (hleads : k.LeadsTo k')
    (sound : k'.board.Sound) (hp' : k'.procs.get? p.pid = some p') : o.Tells k k' p p' := by
  cases h with
  | goesOn ha => cases hv.symm.trans ha
  | exchanged | took | signalled => cases hv
  | blocks _ status frame => exact ⟨status, frame⟩
  | waits => exact ⟨rfl, fun _ _ => rfl⟩
  | yields =>
    exact ⟨rfl, TrapFrame.get_setReturn _ _, TrapFrame.sameButResult_setReturn p.frame 0⟩
  | leaves context mask =>
    exact ⟨hleads.runsOn hp' run rfl, context.fromUser_forceUser, context.interrupts_forceUser,
      SignalSet.contains_erase_kill mask⟩
  | dies =>
    -- the board is in order, so who names no futex is in no queue
    refine ⟨rfl, rfl, ?_, rfl, rfl, rfl⟩
    refine sound.queues.isQueued_eq_false fun q hq => ?_
    cases hp'.symm.trans hq
    rfl

end Process

namespace Kernel

variable {k k₁ k' : Kernel} {p p' : Process} {o : SyscallOutcome}

/-- The word that is returned is put into the registers of a caller that goes on. -/
theorem Returns.tells {a : Except Errno SyscallOutcome} {v : UInt64}
    (ret : Returns p.pid a o k₁.board k'.board) (hv : returnWord a = some v) (h : k.LeadsTo k')
    (hp' : k₁.procs.at? p.pid.slot = some p') (goesOn : p.GoesOn p') :
    ∃ p', k'.procs.get? p.pid = some p' ∧ o.Tells k k' p p' := by
  obtain ⟨rfl, q, hq, hpid, status, hat, -⟩ := ret.of_some hv
  cases hp'.symm.trans hq
  have hget := ProcessTable.get?_eq_some.2 ⟨hat, hpid⟩
  refine ⟨_, hget, h.runsOn hget status goesOn.cpu, TrapFrame.get_setReturn _ _, fun r hr => ?_⟩
  exact (TrapFrame.get_setReturn_of_ne _ _ hr).trans (goesOn.frame r hr)

/-- A system call of a running process does not stop, and its outcome tells the truth about it. -/
theorem syscall_tells (h : k.board.Sound) (hp : k.procs.at? p.pid.slot = some p)
    (run : p.status = .running) :
    Ends (syscall p.pid) k fun o k' => ∃ p', k'.procs.get? p.pid = some p' ∧ o.Tells k k' p p' := by
  obtain ⟨o, k', hstep, -, hcases⟩ := syscall_ends h ⟨p, hp, rfl, run⟩
  refine ⟨o, k', hstep, ?_⟩
  have hleads : k.LeadsTo k' := leads_syscall p.pid k o k' hstep
  obtain ⟨-, ret⟩ | ⟨call, args, a, k₁, ⟨q, hq, -, rfl, hserve⟩, ho, -, ret⟩ := hcases
  · exact ret.tells rfl hleads hp (.refl p)
  cases (ProcessTable.get?_pid hp).symm.trans hq
  obtain ⟨p₁, called, around⟩ := (serve_treats (k := k.noted _) h hp run call).of_eq hserve
  cases hv : returnWord a with
  | some v =>
    have goesOn : p.GoesOn p₁ := called.goesOn_of_word (h.settled hp) run hv
    exact ret.tells hv hleads around.self goesOn
  | none =>
    obtain ⟨rfl, hb⟩ := ret.of_none hv
    have hprocs : k'.procs = k₁.procs := congrArg Board.procs hb
    have hp₁ : k'.procs.get? p.pid = some p₁ :=
      ProcessTable.get?_eq_some.2 ⟨hprocs ▸ around.self, called.pid⟩
    exact ⟨p₁, hp₁, called.tells hv run hleads (hb ▸ ho.sound h) hp₁⟩

end Kernel

namespace Run

variable {clock : Clock} {ms : List Moment} {k : Kernel}

/-- In every kernel that a run leads to, a running process may have anything in its registers: its
system call does not stop, and the outcome tells the truth about it. -/
theorem outcome_tells (run : Run (.boot clock) ms k) :
    ∀ pid p, k.procs.get? pid = some p → p.status = .running → ∀ frame : TrapFrame,
      ∃ o k' p', Kernel.syscall pid (k.withFrame p frame) = .ok o k' ∧
        k'.procs.get? pid = some p' ∧ o.Tells (k.withFrame p frame) k' { p with frame } p' := by
  intro pid p hget running frame
  obtain ⟨hp, rfl⟩ := ProcessTable.get?_eq_some.1 hget
  have same : p.SameStanding { p with frame } := .of_signal _ _ rfl fun _ he => he
  have hsound : (k.withFrame p frame).board.Sound :=
    run.sound.put hp rfl rfl (run.sound.table.put_of_sameStanding hp (by simp [running]) same)
  have hp' : (k.withFrame p frame).procs.at? p.pid.slot = some { p with frame } :=
    ProcessTable.at?_put_self
  obtain ⟨o, k', hstep, p', hget', tells⟩ :=
    Kernel.syscall_tells (p := { p with frame }) hsound hp' running
  exact ⟨o, k', p', hstep, hget', tells⟩

/-- A process has a page of memory and runs. -/
def runsWithPage : List Event :=
  [.memory { Memory.mapPage {} 0 ⟨true, true, true, true, true⟩ 1 with
      bytes := (∅ : Std.ExtTreeMap Nat UInt8).insert 0x800 1 },
    .spawn 0 (TrapFrame.newUser 0x1000 0x2000), .schedule 0]

/-- Registers, and the outcome of the call that they ask for: to wake nobody, to wait for signal 10,
to yield, to leave a handler, and to leave one by a frame that is not aligned. -/
def calls : List (TrapFrame × SyscallOutcome) :=
  [(((TrapFrame.zero.set .a7 98).set .a1 1).set .a0 0x1000, .returned 0),
    (((TrapFrame.zero.set .a7 137).set .a0 0x200).set .a1 0x1800, .blocked),
    (TrapFrame.zero.set .a7 124, .yielded),
    ((TrapFrame.zero.set .a7 139).set .a0 0x1400, .restored),
    ((TrapFrame.zero.set .a7 139).set .a0 0x1401, .exited)]

/-- Each outcome comes about, and tells the truth. -/
theorem outcome_tells_of_calls :
    ∃ ms k p, play (.boot default) runsWithPage = some (ms, k) ∧
      k.procs.get? (.ofSlot 1 0) = some p ∧ p.status = .running ∧ ∀ c ∈ calls, ∃ k' p',
        Kernel.syscall (.ofSlot 1 0) (k.withFrame p c.1) = .ok c.2 k' ∧
          k'.procs.get? (.ofSlot 1 0) = some p' ∧
          c.2.Tells (k.withFrame p c.1) k' { p with frame := c.1 } p' := by
  have hplay : (play (.boot default) runsWithPage).any (fun r =>
      (r.2.procs.get? (.ofSlot 1 0)).any fun p => p.status = .running ∧ ∀ c ∈ calls,
        (match Kernel.syscall (.ofSlot 1 0) (r.2.withFrame p c.1) with
          | .ok o _ => decide (o = c.2)
          | .error _ _ => false) = true) = true := by
    decide +kernel
  obtain ⟨⟨ms, k⟩, h, hr⟩ := (Option.any_eq_true _ _).1 hplay
  obtain ⟨p, hp, hr⟩ := (Option.any_eq_true _ _).1 hr
  obtain ⟨running, hcalls⟩ := of_decide_eq_true hr
  refine ⟨ms, k, p, h, hp, running, fun c hc => ?_⟩
  obtain ⟨o, k', p', hstep, hp', tells⟩ := outcome_tells (Run.of_play h) _ p hp running c.1
  have ho := hcalls c hc
  rw [hstep] at ho
  cases of_decide_eq_true ho
  exact ⟨k', p', hstep, hp', tells⟩

end Run

end SyncKernel
