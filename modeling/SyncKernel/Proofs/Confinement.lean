import SyncKernel.Proofs.Destruction
import SyncKernel.Proofs.Nesting
import SyncKernel.Proofs.SignalSteps
import SyncKernel.Proofs.SweepOrder

/-!
# Where the kernel writes

The kernel writes to user memory on behalf of processes only, and only to places that they named.
Some of these show in the records: a process that waits is handed a message or told a signal, or a
process dies and gives back its locks (`ProcessTable.Writes`). The others belong to the process that
is served: the results of a call (`Syscall.results`), and the frame of a handler below its stack
pointer. `Moment.Writes` is all of them, and `Run.writes_confined` says that in no moment of a run
any other byte changes.

What is written was checked at the time of the write, and not only when the place was named. The
lemmas for one record (`attempt_writes`, `awaitSignal_wrote`, `exchangeAction_wrote`) therefore ask
nothing of the memory.
-/

namespace SyncKernel

open Board Step Memory

/-! ## Places -/

/-- The addresses of the buffer of a process that receives. -/
def ReceiveState.room (r : ReceiveState) : Set Nat :=
  span r.buffer r.capacity.toNat

/-- Between two tables, the places to which something was written for a process that waited or died.
The memory is the one before. -/
inductive ProcessTable.Writes (t : ProcessTable) (m : Memory) (t' : ProcessTable) :
    SpaceId → Nat → Prop where
  /-- A process that waited for a message was handed one; its payload is in the buffer. -/
  | handed {p : Process} {sender : Pid} {value size : UInt64} {perm : UInt32} {a : Nat}
      (before : t.get? p.pid = some p) (wait : p.Receives)
      (after : t'.get? p.pid = some (p.handed sender value size perm)) (ha : a ∈ p.receive.room) :
      Writes t m t' p.space a
  /-- A process that waited for a signal was told its number. -/
  | told {p : Process} {wait : SignalWait} {a : Nat} (before : t.get? p.pid = some p)
      (hw : p.signal.wait = some wait)
      (after : t'.get? p.pid = some
        { p.leaveWait wait with frame := p.frame.setReturn 0, status := .runnable })
      (ha : a ∈ span wait.destination 4) : Writes t m t' p.space a
  /-- A process died; the locks in its list are given back. -/
  | lock {p p' : Process} {a : Nat} (before : t.get? p.pid = some p) (live : p.status ≠ .dying)
      (after : t'.get? p.pid = some p') (dying : p'.status = .dying)
      (ha : a ∈ lockWords (p.locks m)) : Writes t m t' p.space a

/-- The addresses at which a system call that succeeds leaves results for its caller. -/
def Syscall.results (args : SyscallArgs) : Syscall → Set Nat
  | receive | receiveTimeout => span args.a0 args.a1.toNat
  | signalWait => span args.a1 4
  | signalAction => if args.a2 = 0 then ∅ else span args.a2 ActionRecord.byteSize
  | _ => ∅

/-- The places to which the kernel writes in a moment. -/
inductive Moment.Writes (m : Moment) : SpaceId → Nat → Prop where
  /-- Something is written for a process that waited or dies. -/
  | others {s : SpaceId} {a : Nat}
      (h : m.before.procs.Writes m.before.memory m.after.procs s a) : m.Writes s a
  /-- A system call that succeeds leaves results for its caller. -/
  | call {p : Process} {call : Syscall} {args : SyscallArgs} {value : UInt64} {a : Nat}
      (before : m.before.procs.get? p.pid = some p)
      (answer : m.Answers p.pid call args (.ok (.returned value))) (ha : a ∈ call.results args) :
      m.Writes p.space a
  /-- A process goes back to user code, into a handler with a frame below the old stack pointer. -/
  | frame {p : Process} {regs : TrapFrame} {a : Nat} (event : m.event = .trapReturn p.pid)
      (before : m.before.procs.get? p.pid = some p) (answer : m.answer = .resumed (.resume regs))
      (below : (regs.get .a0).toNat + SignalFrame.byteSize ≤ (p.frame.get .sp).toNat)
      (ha : a ∈ span (regs.get .a0) SignalFrame.byteSize) : m.Writes p.space a

/-! ## One record -/

namespace Process

variable {p p' : Process} {m m' : Memory}

/-- A wait for a signal writes its number to the place that was named. -/
theorem awaitSignal_wrote {accept : SignalSet} {destination : UInt64}
    {a : Except Errno (Option Nat)} (h : p.awaitSignal m accept destination = (a, p', m')) :
    Wrote (Within p.space (span destination 4)) m m' := by
  unfold awaitSignal at h
  dsimp only at h
  split at h
  · cases h
    exact .refl _
  split at h
  · cases h
    exact .refl _
  split at h
  · split at h
    · cases h
      exact .refl _
    · next hwrite =>
      cases h
      have hwrote := Wrote.of_userWrite hwrite
      rwa [length_word32Bytes] at hwrote
  split at h <;> cases h <;> exact .refl _

/-- An exchange of actions writes the old one to the place that was named, if any. -/
theorem exchangeAction_wrote {n : Nat} {new old : UInt64} {a : Except Errno Unit}
    (h : p.exchangeAction m n new old = (a, p', m')) :
    Wrote (Within p.space (if old = 0 then ∅ else span old ActionRecord.byteSize)) m m' := by
  unfold exchangeAction at h
  dsimp only at h
  split at h
  · cases h
    exact .refl _
  split at h
  · cases h
    exact .refl _
  split at h
  · cases h
    exact .refl _
  next hchange =>
  split at h
  · cases h
    exact .refl _
  next hold =>
  rw [if_neg hold]
  split at h
  · cases h
    exact .refl _
  · next hwrite =>
    cases h
    have hwrote := Wrote.of_userWrite hwrite
    rw [ActionRecord.length_toBytes] at hwrote
    obtain rfl | ⟨-, _, rfl⟩ := changeAction_eq_ok hchange <;> exact hwrote

/-- Sending a signal writes its number to the place that a process named which waits for it. -/
theorem Signalled.writes {t t' : ProcessTable} {n : Nat} {value : UInt64} {a : Except Errno Sent}
    (h : Signalled p m n value a p' m') (before : t.get? p.pid = some p)
    (after : t'.get? p.pid = some p') : Wrote (t.Writes m t') m m' := by
  cases h with
  | handed hw _ _ hm =>
    have hwrote := Wrote.of_userWrite hm
    rw [length_word32Bytes] at hwrote
    refine hwrote.mono ?_
    rintro s a ⟨rfl, ha⟩
    exact .told before hw after ha
  | refused => exact .refl _
  | merged => exact .refl _
  | queued => exact .refl _
  | interrupted => exact .refl _
  | lost => exact .refl _

/-- A handler is called with the address of its frame. -/
theorem enterHandler_frame {entry handler f : UInt64} {e : PendingSignal} {a : Action}
    (h : p.enterHandler m entry handler e a = .ok (p', m', f)) : p'.frame.get .a0 = f := by
  unfold enterHandler at h
  dsimp only at h
  split at h
  · cases h
  split at h
  · cases h
  cases h
  simp [TrapFrame.get_set]

end Process

namespace Population

variable {w w' : Population} {s r : Process} {sender target pid : Pid} {msg : Message}
  {now : Millis}

/-- A payload is written to the buffer of the receiver. -/
theorem copyPayload_wrote {payload : Payload} {m' : Memory}
    (h : w.copyPayload s r msg = .ok (payload, m')) :
    Wrote (Within r.space r.receive.room) w.memory m' := by
  unfold copyPayload at h
  dsimp only at h
  split at h
  · cases h
    exact .refl _
  split at h
  · cases h
  split at h
  · next hcopy =>
    cases h
    unfold Memory.copy at hcopy
    split at hcopy
    · cases hcopy
    next bytes hread =>
    refine (Wrote.of_userWrite hcopy).mono fun t a ⟨ht, hle, hlt⟩ => ⟨ht, hle, ?_⟩
    rw [length_of_userRead hread] at hlt
    have hportion := r.portion_le msg
    omega
  · cases h
    exact .refl _

/-- Handing over a message writes to the buffer of the receiver. -/
theorem complete_wrote (h : w.complete s r msg = .ok w') :
    Wrote (Within r.space r.receive.room) w.memory w'.memory := by
  unfold complete at h
  obtain ⟨⟨payload, memory⟩, hcopy, h⟩ := Except.bind_eq_ok.1 h
  have hwrote := copyPayload_wrote hcopy
  cases payload <;>
  · obtain ⟨_, -, h⟩ := Except.bind_eq_ok.1 h
    cases h
    exact hwrote

/-- An attempt to pass a message writes to the buffer of the target. -/
theorem attempt_wrote {o : Attempt} (h : w.attempt sender target msg = .ok (o, w'))
    (hr : w.procs.get? target = some r) :
    Wrote (Within r.space r.receive.room) w.memory w'.memory := by
  unfold attempt at h
  split at h
  · cases h
    exact .refl _
  split at h
  · cases h
    exact .refl _
  split at h
  · cases h
    exact .refl _
  next hpair =>
  obtain ⟨-, -, hr'⟩ := ProcessTable.pair?_eq_some.1 hpair
  cases hr.symm.trans hr'
  split at h
  · obtain ⟨w₁, hc, h⟩ := Except.bind_eq_ok.1 h
    cases h
    exact complete_wrote hc
  · cases h
    exact .refl _

/-- An attempt to pass a message writes only for a process that waits for one, which is handed it.
-/
theorem attempt_writes {o : Attempt} (h : w.attempt sender target msg = .ok (o, w')) :
    Wrote (w.procs.Writes w.memory w'.procs) w.memory w'.memory := by
  obtain ⟨-, rfl⟩ | ⟨-, -, r, size, perm, hr, wait, hprocs⟩ := attempt_ok h
  · exact .refl _
  · refine (attempt_wrote h hr).mono ?_
    rintro s a ⟨rfl, ha⟩
    obtain ⟨-, rfl⟩ := ProcessTable.get?_eq_some.1 hr
    exact .handed hr wait (hprocs ▸ ProcessTable.get?_put_self) ha

/-- A send that does not wait writes what its attempt writes. -/
theorem trySend_writes {a : Except Errno Unit} (h : w.trySend pid target msg = .ok (a, w')) :
    Wrote (w.procs.Writes w.memory w'.procs) w.memory w'.memory := by
  unfold trySend at h
  split at h
  · cases h
    exact .refl _
  split at h
  · cases h
    exact .refl _
  · obtain ⟨⟨o, w₁⟩, ha, h⟩ := Except.bind_eq_ok.1 h
    cases o <;> cases h <;> exact attempt_writes ha

/-- A send that may wait writes what its attempt writes. -/
theorem sendTimeout_writes {timeout : Millis} {a : Except Errno CallOutcome}
    (h : w.sendTimeout pid target msg timeout now = .ok (a, w')) :
    Wrote (w.procs.Writes w.memory w'.procs) w.memory w'.memory := by
  unfold sendTimeout at h
  split at h
  · cases h
    exact .refl _
  split at h
  · cases h
    exact .refl _
  split at h
  · cases h
    exact .refl _
  obtain ⟨⟨o, w₁⟩, ha, hrest⟩ := Except.bind_eq_ok.1 h
  cases o with
  | delivered | targetGone =>
    cases hrest
    exact attempt_writes ha
  | notReady =>
    obtain ⟨-, rfl⟩ | ⟨ho, -⟩ := attempt_ok ha
    · dsimp only at hrest
      split at hrest <;> cases hrest <;> exact .refl _
    · cases ho

/-- A receive that does not block its caller writes to the buffer of the caller, and one that does
writes nothing. -/
theorem receive_wrote {buffer capacity : UInt64} {timeout : Option Millis} {p : Process}
    {a : Except Errno CallOutcome} (hp : w.procs.get? pid = some p)
    (h : w.receive pid buffer capacity timeout now = .ok (a, w')) :
    Wrote (fun s x => a ≠ .ok .blocked ∧ Within p.space (span buffer capacity.toNat) s x)
      w.memory w'.memory := by
  unfold receive at h
  split at h
  · cases h
    exact .refl _
  split at h
  · cases h
    exact .refl _
  next q hq =>
  cases hp.symm.trans (ProcessTable.lookup_eq_ok.1 hq).1
  obtain ⟨-, rfl⟩ := ProcessTable.get?_eq_some.1 hp
  dsimp only at h
  split at h
  · cases h
    exact .refl _
  split at h
  · cases h
    exact .refl _
  obtain ⟨⟨o, w₁⟩, ha, hrest⟩ := Except.bind_eq_ok.1 h
  dsimp only at hrest
  split at hrest
  · -- the caller has become a process that waits for a message
    have hwrote := attempt_wrote ha ProcessTable.get?_put_self
    have finished : w'.memory = w₁.memory ∧ a ≠ .ok .blocked := by
      split at hrest
      · obtain ⟨w₂, hw₂, hrest⟩ := Except.bind_eq_ok.1 hrest
        obtain ⟨woken, -, rfl⟩ := Except.map_eq_ok.1 hw₂
        split at hrest <;> cases hrest <;> exact ⟨rfl, nofun⟩
      · obtain ⟨w₂, hw₂, hrest⟩ := Except.bind_eq_ok.1 hrest
        cases hw₂
        split at hrest <;> cases hrest <;> exact ⟨rfl, nofun⟩
    rw [finished.1]
    exact hwrote.mono fun s x hx => ⟨finished.2, hx⟩
  · next hne =>
    obtain ⟨-, rfl⟩ | ⟨ho, -⟩ := attempt_ok ha
    · cases hrest
      exact .refl _
    · exact absurd ho hne

/-- Choosing a process leaves the memory. -/
theorem schedule_memory {state state' : Cpu} {cpu : Nat} {d : Decision}
    (h : w.schedule state cpu now = .ok (d, state', w')) : w'.memory = w.memory := by
  obtain ⟨⟨n, w₁⟩, he, h⟩ := Except.bind_eq_ok.1 h
  have hmem : w₁.memory = w.memory := expireSlots_memory _ he
  dsimp only at h
  split at h
  · split at h
    · cases h
      exact hmem
    · cases h
  · split at h <;> cases h <;> exact hmem

/-- Beginning to wait on a futex leaves the memory. -/
theorem futexWait_memory {t t' : FutexTable} {address : UInt64} {expected : UInt32}
    {a : Except Errno Unit} (h : w.futexWait t pid address expected = .ok (a, t', w')) :
    w'.memory = w.memory := by
  unfold futexWait at h
  split at h
  · cases h
    rfl
  split at h
  · cases h
    rfl
  split at h
  · cases h
  split at h
  · cases h
    rfl
  split at h <;> cases h <;> rfl

end Population

/-! ## Operations -/

/-- An operation on the record of a live process leaves the memory if its function does. -/
theorem Step.SparesMemory.ofLive {α : Type} {pid : Pid}
    {f : Process → Memory → Except Fault (Except Errno α × Process × Memory)}
    (hf : ∀ p m a p' m', f p m = .ok (a, p', m') → m' = m) : SparesMemory (ofLive pid f) :=
  fun k => leaves_ofLive.2 ⟨fun _ _ => rfl, fun p a p' m _ h => hf p k.memory a p' m h⟩

namespace Kernel

variable {k k' : Kernel} {p : Process} {pid : Pid} (args : SyscallArgs)

/-- Scheduling leaves the memory. -/
theorem spares_schedule (cpu : Nat) : SparesMemory (schedule cpu) := fun k => by
  rw [schedule, leaves_bind, leaves_get]
  split
  · split
    · exact leaves_throw.2 trivial
    · next hs =>
      rw [leaves_bind, leaves_set, leaves_pure]
      exact Population.schedule_memory hs
  · exact leaves_throw.2 trivial

/-- The futex call leaves the memory. -/
theorem spares_serveFutex (pid : Pid) : SparesMemory (serveFutex pid args) := by
  rw [serveFutex, if_neg (by simp [futexEnabled])]
  split
  · refine .bind (fun k => ?_) fun a => ?_
    · rw [futexWait, leaves_bind, leaves_get]
      split
      · exact leaves_throw.2 trivial
      · next hw =>
        rw [leaves_bind, leaves_set, leaves_pure]
        exact Population.futexWait_memory hw
    · cases a <;> exact .pure _
  split
  · exact .bind (spares_futexWake _ _) fun _ => .pure _
  · exact .pure _

/-- Registering a list of locks leaves the memory. -/
theorem spares_serveSetRobustList (pid : Pid) : SparesMemory (serveSetRobustList pid args) := by
  refine .ofLive fun p m a p' m' h => ?_
  split at h <;> cases h <;> rfl

/-- Yielding leaves the memory. -/
theorem spares_serveYield (pid : Pid) : SparesMemory (serveYield pid) := by
  refine .bind (.ofLive fun p m a p' m' h => ?_) fun a => ?_
  · cases h
    rfl
  · cases a with
    | error => exact .pure _
    | ok => exact .bind (fun _ => leaves_modify.2 rfl) fun _ => .pure _

/-- Registering an entry leaves the memory. -/
theorem spares_serveSignalEntry (pid : Pid) : SparesMemory (serveSignalEntry pid args) := by
  refine .ofLive fun p m a p' m' h => ?_
  split at h <;> cases h <;> rfl

/-- A sweep of processes in order hands over no message, so it leaves the memory. -/
theorem sweepNow_memory (h : k.board.Sound) :
    Leaves sweepNow k fun _ k' => k'.memory = k.memory := by
  rw [sweepNow, leaves_bind, leaves_get, leaves_ofPopulation]
  intro n w hw
  obtain ⟨n', w', hw', -, -, -, hmem, -⟩ :=
    Population.sweep_lapses (w := k.toPopulation) h rfl k.clock.now
  cases hw.symm.trans hw'
  exact hmem

/-- A tick of the timer leaves the memory of a sound board: no message passes in a sweep. -/
theorem timerTick_memory (h : k.board.Sound) :
    Leaves timerTick k fun _ k' => k'.memory = k.memory := by
  rw [timerTick, leaves_bind, leaves_get]
  split
  · exact leaves_pure.2 rfl
  · rw [leaves_bind, leaves_set]
    exact sweepNow_memory (k := { k with lastSweep := k.clock.now }) h

/-! ## Destroying a process -/

/-- Destroying a process writes to the locks in its list. -/
theorem destroy_wrote (hp : k.procs.lookup pid = .ok p) :
    Leaves (destroy pid) k fun _ k' =>
      Wrote (Within p.space (lockWords (p.locks k.memory))) k.memory k'.memory :=
  (destroy_released hp).mono fun _ _ h => h.wrote fun _ => Process.aligned_of_mem_locks

/-- Killing a process writes to the lock words it owns. -/
theorem kill_wrote (hp : k.procs.lookup pid = .ok p) (why : KillReason) :
    Leaves (kill pid why) k fun _ k' =>
      Wrote (Within p.space (lockWords (p.locks k.memory))) k.memory k'.memory := by
  rw [kill, leaves_bind, leaves_note, leaves_bind]
  refine (destroy_wrote (k := k.noted _) hp).mono fun a k' hk => ?_
  cases a with
  | ok => exact leaves_pure.2 hk
  | error => exact leaves_note.2 hk

/-- The locks that are given back when the record `q` is destroyed belong to the process, `p` being
its record before: whatever changed in it since, its list did not. -/
theorem wrote_locks {t t' : ProcessTable} {m m₁ m' : Memory} {q p' : Process}
    (hw : Wrote (Within q.space (lockWords (q.locks m₁))) m₁ m') (hm : m₁ = m)
    (before : t.get? p.pid = some p) (live : p.status ≠ .dying)
    (after : t'.at? p.pid.slot = some p') (hpid : p'.pid = p.pid)
    (dying : p'.status = .dying) (hspace : q.space = p.space) (hrobust : q.robust = p.robust) :
    Wrote (t.Writes m t') m m' := by
  have hlocks : q.locks m = p.locks m := by
    rw [Process.locks, Process.locks, hspace, hrobust]
  rw [hm, hlocks, hspace] at hw
  refine hw.mono ?_
  rintro s a ⟨rfl, ha⟩
  exact .lock before live (ProcessTable.get?_eq_some.2 ⟨after, hpid⟩) dying ha

/-- Sending a signal writes its number to the process that waits for it, or destroys it. -/
theorem sendSignal_writes (h : k.board.Sound) (target : Pid) (n : Nat) (value : UInt64) :
    Ends (sendSignal target n value) k fun _ k' =>
      Wrote (k.procs.Writes k.memory k'.procs) k.memory k'.memory := by
  rw [sendSignal, ends_bind, ends_ofLive]
  cases hl : k.procs.lookup target with
  | error e => exact .inl ⟨e, rfl, ends_pure.2 (.refl _)⟩
  | ok p =>
    obtain ⟨hget, live⟩ := ProcessTable.lookup_eq_ok.1 hl
    obtain ⟨hp, rfl⟩ := ProcessTable.get?_eq_some.1 hget
    obtain ⟨a, p', m', hsend, hsig⟩ := p.sendSignal_ends (h.settled hp) k.memory n value
    refine .inr ⟨p, a, p', m', rfl, hsend, ?_⟩
    cases a with
    | error e =>
      cases hsig
      exact ends_pure.2 (.refl _)
    | ok sent =>
      rw [ends_bind]
      refine (noteSent_ends p.pid n sent).mono fun _ k₂ hsent => ?_
      obtain ⟨hk₂, hm₂⟩ := hsent
      have hboard : k₂.board = k.board.put p' := hk₂.board
      have hprocs : k₂.procs = k.procs.put p' := congrArg Board.procs hboard
      split
      · next hlost =>
        subst hlost
        cases hsig with
        | @lost wait e hw =>
          have hends := destroy_ends (k := k₂.noted (.signalLost p.pid)) hboard h hp live
            (.inr ⟨wait, hw, rfl⟩)
          have hl₂ : k₂.procs.lookup p.pid = .ok (p.leaveWait wait) := by
            rw [hprocs]
            exact ProcessTable.lookup_of_live (p := p.leaveWait wait) ProcessTable.at?_put_self
              live
          have hwrote := destroy_wrote (k := k₂.noted (.signalLost p.pid)) hl₂
          rw [ends_bind, ends_note]
          refine (hends.and_leaves hwrote).mono fun _ k' hdestroyed => ?_
          obtain ⟨⟨-, hd⟩, hk'⟩ := hdestroyed
          exact wrote_locks hk' hm₂ hget live (hd.dying rfl) rfl rfl rfl rfl
      · rw [ends_pure, hm₂, hprocs]
        exact hsig.writes hget (hsig.pid ▸ ProcessTable.get?_put_self)

/-! ## System calls -/

/-- The places to which a system call of the process `p` with the answer `a` writes. -/
def CallWrites (k : Kernel) (p : Process) (call : Syscall) (args : SyscallArgs)
    (a : Except Errno SyscallOutcome) (k' : Kernel) : SpaceId → Nat → Prop :=
  fun s x => k.procs.Writes k.memory k'.procs s x ∨
    (∃ value, a = .ok (.returned value)) ∧ Within p.space (call.results args) s x

section
variable (h : k.board.Sound) (hp : k.procs.at? p.pid.slot = some p) (run : p.status = .running)
include hp run

/-- A running process is found by its id. -/
theorem lookup_of_running : k.procs.lookup p.pid = .ok p :=
  ProcessTable.lookup_of_live hp (by simp [run])

/-- Exchanging an action writes to the place of the old one. -/
theorem serveSignalAction_wrote :
    Leaves (serveSignalAction p.pid args) k fun a k' =>
      Wrote (k.CallWrites p .signalAction args a k') k.memory k'.memory := by
  unfold serveSignalAction
  dsimp only
  split
  · exact leaves_pure.2 (.refl _)
  rw [leaves_bind, leaves_ofLive]
  refine ⟨fun e _ => leaves_pure.2 (.refl _), fun q a p' m hq hx => ?_⟩
  cases (lookup_of_running hp run).symm.trans hq
  have hx := Except.ok.inj hx
  have hwrote := Process.exchangeAction_wrote hx
  cases a with
  | error e =>
    obtain ⟨_, -, -, rfl⟩ | ⟨hok, -⟩ := Process.exchangeAction_cases hx
    · exact leaves_pure.2 (.refl _)
    · cases hok
  | ok => exact leaves_pure.2 (hwrote.mono fun s x hx => .inr ⟨⟨0, rfl⟩, hx⟩)

/-- Waiting for a signal writes to the place of the number. -/
theorem serveSignalWait_wrote :
    Leaves (serveSignalWait p.pid args) k fun a k' =>
      Wrote (k.CallWrites p .signalWait args a k') k.memory k'.memory := by
  unfold serveSignalWait
  dsimp only
  rw [leaves_bind, leaves_ofLive]
  refine ⟨fun e _ => leaves_pure.2 (.refl _), fun q a p' m hq hx => ?_⟩
  cases (lookup_of_running hp run).symm.trans hq
  have hx := Except.ok.inj hx
  have hwrote := Process.awaitSignal_wrote hx
  cases a with
  | error e =>
    cases Process.awaitSignal_awaits hx
    exact leaves_pure.2 (.refl _)
  | ok taken =>
    dsimp only
    rw [leaves_bind]
    cases taken with
    | some n =>
      exact leaves_pure.2 (leaves_pure.2 (hwrote.mono fun s x hx => .inr ⟨⟨0, rfl⟩, hx⟩))
    | none =>
      cases Process.awaitSignal_awaits hx
      exact leaves_note.2 (leaves_pure.2 (.refl _))

include h

/-- Leaving a handler writes to the locks of the caller, if the frame cannot be read and it is
killed. -/
theorem serveSignalReturn_wrote :
    Ends (serveSignalReturn p.pid args) k fun _ k' =>
      Wrote (k.procs.Writes k.memory k'.procs) k.memory k'.memory := by
  rw [serveSignalReturn, ends_bind]
  cases hl : p.leaveHandler k.memory args.a0 with
  | error e =>
    refine ends_ofLive_running hp run (by rw [leaveHandler, hl]) fun k₁ hb hm _ => ?_
    rw [put_self hp] at hb
    have hp₁ : k₁.board.procs.at? p.pid.slot = some p := hb ▸ hp
    have live : p.status ≠ .dying := by simp [run]
    simp only [ends_bind, ends_pure]
    have hends := kill_ends (hb ▸ h) hp₁ live .badFrame
    have hwrote := kill_wrote (ProcessTable.lookup_of_live hp₁ live) .badFrame
    refine (hends.and_leaves hwrote).mono fun _ k' hkilled => ?_
    obtain ⟨hd, hk'⟩ := hkilled
    exact wrote_locks hk' hm (ProcessTable.get?_pid hp) live (hd.dying rfl) rfl rfl rfl rfl
  | ok p' =>
    refine ends_ofLive_running hp run (by rw [leaveHandler, hl]) fun k₁ _ hm _ => ?_
    simp only [ends_bind, ends_note, ends_pure]
    exact .of_eq hm

omit hp run in
/-- Sending a signal writes for its target only. -/
theorem serveSignalSend_wrote (pid : Pid) :
    Leaves (serveSignalSend pid args) k fun _ k' =>
      Wrote (k.procs.Writes k.memory k'.procs) k.memory k'.memory := by
  unfold serveSignalSend
  split
  · exact leaves_pure.2 (.refl _)
  · rw [leaves_bind]
    refine (sendSignal_writes h _ _ _).leaves.mono fun a k' hk => ?_
    cases a <;> exact leaves_pure.2 hk

omit h hp run in
/-- A send that does not wait writes to the buffer of a receiver. -/
theorem serveTrySend_wrote (pid : Pid) :
    Leaves (serveTrySend pid args) k fun _ k' =>
      Wrote (k.procs.Writes k.memory k'.procs) k.memory k'.memory := by
  unfold serveTrySend
  split
  · exact leaves_pure.2 (.refl _)
  · rw [leaves_bind, leaves_ofPopulation]
    intro a w hw
    cases a <;> exact leaves_pure.2 (Population.trySend_writes hw)

omit h hp run in
/-- A send that may wait writes to the buffer of a receiver. -/
theorem serveSendTimeout_wrote (pid : Pid) :
    Leaves (serveSendTimeout pid args) k fun _ k' =>
      Wrote (k.procs.Writes k.memory k'.procs) k.memory k'.memory := by
  unfold serveSendTimeout
  split
  · exact leaves_pure.2 (.refl _)
  · rw [leaves_bind, leaves_get, leaves_bind, leaves_ofPopulation]
    exact fun a w hw => leaves_pure.2 (Population.sendTimeout_writes hw)

/-- A receive that is answered with a message writes to the buffer of the caller; one that is
refused or blocks writes nothing. -/
theorem serveReceive_wrote {call : Syscall} (timeout : Option Millis)
    (hcall : call = .receive ∨ call = .receiveTimeout) :
    Leaves (serveReceive p.pid args timeout) k fun a k' =>
      Wrote (k.CallWrites p call args a k') k.memory k'.memory := by
  have hresults : call.results args = span args.a0 args.a1.toNat := by
    rcases hcall with rfl | rfl <;> rfl
  have hwrote : Leaves (serveReceive p.pid args timeout) k fun a k' =>
      Wrote (fun s x => a ≠ .ok .blocked ∧ Within p.space (span args.a0 args.a1.toNat) s x)
        k.memory k'.memory := by
    rw [serveReceive, leaves_bind, leaves_get, leaves_bind, leaves_ofPopulation]
    intro a w hw
    refine leaves_pure.2 ((Population.receive_wrote (ProcessTable.get?_pid hp) hw).mono ?_)
    rintro s x ⟨hne, hx⟩
    refine ⟨fun ha => hne ?_, hx⟩
    cases a with
    | error => cases ha
    | ok o =>
      cases o with
      | done => cases ha
      | blocked => rfl
  refine ((serveReceive_ends h hp run args timeout).and_leaves hwrote).leaves.mono
    fun a k' hreceived => ?_
  obtain ⟨⟨-, hcases⟩, hw⟩ := hreceived
  obtain ⟨e, rfl, rfl, -⟩ | ⟨sender, value, rfl, -⟩ | ⟨rfl, -⟩ := hcases
  · exact .refl _
  · exact hw.mono fun s x hx => .inr ⟨⟨value, rfl⟩, hresults ▸ hx.2⟩
  · exact hw.mono fun s x hx => absurd rfl hx.1

/-- A system call of a running process writes for others, or leaves its results. -/
theorem serve_wrote (call : Syscall) :
    Leaves (serve p.pid args call) k fun a k' =>
      Wrote (k.CallWrites p call args a k') k.memory k'.memory := by
  have spares : ∀ {x : Served}, SparesMemory x → Leaves x k fun a k' =>
      Wrote (k.CallWrites p call args a k') k.memory k'.memory :=
    fun hx => (hx k).mono fun _ _ => .of_eq
  have others : ∀ {x : Served}, Leaves x k (fun _ k' =>
      Wrote (k.procs.Writes k.memory k'.procs) k.memory k'.memory) → Leaves x k fun a k' =>
        Wrote (k.CallWrites p call args a k') k.memory k'.memory :=
    fun hx => hx.mono fun _ _ hk => hk.mono fun _ _ => .inl
  cases call with
  | futex => exact spares (spares_serveFutex args _)
  | setRobustList => exact spares (spares_serveSetRobustList args _)
  | yield => exact spares (spares_serveYield _)
  | signalEntry => exact spares (spares_serveSignalEntry args _)
  | signalAction => exact serveSignalAction_wrote args hp run
  | signalWait => exact serveSignalWait_wrote args hp run
  | signalSend => exact others (serveSignalSend_wrote args h _)
  | signalReturn => exact others (serveSignalReturn_wrote args h hp run).leaves
  | trySend => exact others (serveTrySend_wrote args _)
  | sendTimeout => exact others (serveSendTimeout_wrote args _)
  | receive => exact serveReceive_wrote args h hp run none (.inl rfl)
  | receiveTimeout => exact serveReceive_wrote args h hp run (some args.a2) (.inr rfl)

end

end Kernel

/-- What is written for others while a call is served still shows when the answer has been put into
the registers of the caller: the caller runs, and they do not. -/
theorem ProcessTable.Writes.returned {t : ProcessTable} {m : Memory} {b b' : Board} {pid : Pid}
    {answer : Except Errno SyscallOutcome} {o : SyscallOutcome} {s : SpaceId} {a : Nat}
    (h : t.Writes m b.procs s a) (ret : Kernel.Returns pid answer o b b') :
    t.Writes m b'.procs s a := by
  cases ret with
  | other => exact h
  | @word _ p value _ hp _ run =>
    have stays : ∀ {i : Pid} {q : Process}, b.procs.get? i = some q → q.status ≠ .running →
        (b.put { p with frame := p.frame.setReturn value }).procs.get? i = some q := by
      intro i q hq hne
      obtain ⟨hat, rfl⟩ := ProcessTable.get?_eq_some.1 hq
      rw [← hq]
      refine ProcessTable.get?_put_of_ne (ProcessTable.slot_ne hp hat ?_)
      rw [run]
      exact hne.symm
    cases h with
    | handed before wait after ha => exact .handed before wait (stays after nofun) ha
    | told before hw after ha => exact .told before hw (stays after nofun) ha
    | lock before live after dying ha =>
      exact .lock before live (stays after (by simp [dying])) dying ha

namespace Kernel

variable {k k' : Kernel} {p : Process}

/-- A call by the number of none leaves the memory. -/
theorem AsksForNone.memory {pid : Pid} (h : k.AsksForNone pid) :
    Leaves (syscall pid) k fun _ k' => k'.memory = k.memory := by
  obtain ⟨p, hp, hnone⟩ := h
  rw [syscall, leaves_bind, leaves_get, hp]
  dsimp only
  rw [hnone, leaves_bind, leaves_note]
  dsimp only
  rw [leaves_bind, leaves_pure, leaves_bind]
  exact leaves_modify.2 (leaves_pure.2 rfl)

/-- A system call of a running process writes where it may. -/
theorem syscall_wrote (h : k.board.Sound) (hp : k.procs.at? p.pid.slot = some p)
    (run : p.status = .running) :
    Ends (syscall p.pid) k fun o k' =>
      Wrote (⟨k, .syscall p.pid, .served o, k'⟩ : Moment).Writes k.memory k'.memory := by
  obtain ⟨o, k', step, -, ⟨none, -⟩ | ⟨call, args, a, k₁, ans, -, hmem, ret⟩⟩ :=
    syscall_ends h ⟨p, hp, rfl, run⟩
  · exact ⟨o, k', step, .of_eq (none.memory _ _ step)⟩
  refine ⟨o, k', step, ?_⟩
  have answer : (⟨k, .syscall p.pid, .served o, k'⟩ : Moment).Answers p.pid call args a :=
    ⟨rfl, k₁, ans⟩
  obtain ⟨q, hq, -, -, hserve⟩ := ans
  have hwrote := serve_wrote (k := k.noted _) args h hp run call a k₁ hserve
  dsimp only
  rw [hmem]
  refine hwrote.mono fun s x hx => ?_
  rcases hx with hothers | ⟨⟨value, rfl⟩, rfl, hx⟩
  · exact .others (hothers.returned ret)
  · exact .call (ProcessTable.get?_pid hp) answer hx

/-- A process that has to end when a signal is delivered gives back its locks. -/
theorem trapReturn_fatal {pid : Pid} {d : Delivery} {q : Process} {m : Memory}
    (hl : k.procs.lookup pid = .ok p) (hd : p.deliver k.memory = .ok (d, q, m))
    (fatal : d.isFatal = true) :
    Leaves (trapReturn pid) k fun _ k' =>
      Wrote (Within q.space (lockWords (q.locks m))) m k'.memory := by
  obtain ⟨hget, live⟩ := ProcessTable.lookup_eq_ok.1 hl
  obtain ⟨hp, rfl⟩ := ProcessTable.get?_eq_some.1 hget
  have hs := (Process.deliver_delivers hd).sameStanding
  rw [trapReturn, leaves_bind, deliver, leaves_bind, leaves_ofLive]
  refine ⟨fun e he => ?_, fun p₀ a q' m' hl' hd' => ?_⟩
  · cases hl.symm.trans he
  cases hl.symm.trans hl'
  simp only [signalsEnabled, if_true, hd, Except.map] at hd'
  cases hd'
  have hl₁ : (k.procs.put q).lookup p.pid = .ok q := by
    rw [← hs.pid]
    exact ProcessTable.lookup_of_live ProcessTable.at?_put_self (hs.status ▸ live)
  have killed : ∀ {k₁ : Kernel} {n : Nat}, k₁.procs = k.procs.put q → k₁.memory = m →
      Leaves (do note (.signalFatal p.pid n); kill p.pid .signal; return TrapReturn.killed) k₁
        fun _ k' => Wrote (Within q.space (lockWords (q.locks m))) m k'.memory := by
    rintro k₁ n hprocs rfl
    rw [leaves_bind, leaves_note, leaves_bind]
    exact (kill_wrote (k := k₁.noted _) (hprocs ▸ hl₁) .signal).mono fun _ _ hk => leaves_pure.2 hk
  cases d with
  | none | ignored | handled => cases fatal
  | fatal n => exact leaves_bind.2 (leaves_pure.2 (leaves_pure.2 (killed rfl rfl)))
  | unwritable n stack => exact leaves_bind.2 (leaves_note.2 (leaves_pure.2 (killed rfl rfl)))

/-- Going back to user code writes the frame of a handler, or gives back the locks of a process that
dies. -/
theorem trapReturn_wrote (h : k.board.Sound) (hp : k.procs.at? p.pid.slot = some p)
    (run : p.status = .running) :
    Ends (trapReturn p.pid) k fun a k' =>
      Wrote (⟨k, .trapReturn p.pid, .resumed a, k'⟩ : Moment).Writes k.memory k'.memory := by
  obtain ⟨a, k', step, d, q, k₁, hd, -, -, hcases⟩ := trapReturn_proceeds h hp run
  refine ⟨a, k', step, ?_⟩
  have before : k.procs.get? p.pid = some p := ProcessTable.get?_pid hp
  have hdel := Process.deliver_delivers hd
  cases hcases with
  | killed fatal hk =>
    have live : p.status ≠ .dying := by simp [run]
    have hwrote := trapReturn_fatal (ProcessTable.lookup_of_live hp live) hd fatal _ _ step
    have hdead : k'.procs.at? p.pid.slot = some { q.bury with futex := none } :=
      hdel.sameStanding.pid ▸ hk.dying rfl
    have hwrites : Wrote (k.procs.Writes k.memory k'.procs) k.memory k'.memory := by
      generalize k₁.memory = m at hdel hwrote
      cases hdel with
      | nothing => exact wrote_locks hwrote rfl before live hdead rfl rfl rfl rfl
      | taken => exact wrote_locks hwrote rfl before live hdead rfl rfl rfl rfl
      | called => cases fatal
    exact hwrites.mono fun s x hx => .others hx
  | resumes =>
    dsimp only
    generalize k'.memory = m at hdel
    generalize hr : TrapReturn.resume q.frame = r
    cases hdel with
    | nothing => exact .refl _
    | taken => exact .refl _
    | @called _ e queue _ _ f _ _ _ _ _ _ _ _ hcall =>
      subst hr
      have hcalls := Process.enterHandler_calls hcall
      obtain ⟨saved, -, -, hwrite⟩ := hcalls.written
      have hwrote := Wrote.of_userWrite hwrite
      rw [SignalFrame.length_toBytes] at hwrote
      refine hwrote.mono ?_
      rintro s a ⟨rfl, ha⟩
      obtain rfl := Process.enterHandler_frame hcall
      exact Moment.Writes.frame (p := p) rfl before rfl hcalls.room ha

end Kernel

/-- In no event but those of user code the kernel writes where it may not. -/
theorem Event.wrote {k : Kernel} {e : Event} (h : k.board.Sound) (allowed : e.Allowed k)
    (kernel : ∀ m, e ≠ .memory m) :
    Leaves e.perform k fun a k' =>
      Wrote (⟨k, e, a, k'⟩ : Moment).Writes k.memory k'.memory := by
  have same : ∀ {a : Answer} {k' : Kernel}, k'.memory = k.memory →
      Wrote (⟨k, e, a, k'⟩ : Moment).Writes k.memory k'.memory := .of_eq
  have others : ∀ {a : Answer} {k' : Kernel},
      Wrote (k.procs.Writes k.memory k'.procs) k.memory k'.memory →
        Wrote (⟨k, e, a, k'⟩ : Moment).Writes k.memory k'.memory :=
    fun hk => hk.mono fun _ _ hx => .others hx
  cases e with
  | spawn space frame =>
    refine leaves_map.2 ((Kernel.leaves_spawn k space frame).mono fun a k' hk => same ?_)
    obtain ⟨-, -, rfl⟩ | ⟨-, -, -, -, rfl⟩ := hk <;> rfl
  | syscall pid =>
    obtain ⟨p, hp, rfl, run⟩ := Kernel.status_eq_running.1 allowed
    exact leaves_map.2 (Kernel.syscall_wrote h hp run).leaves
  | schedule cpu =>
    exact leaves_map.2 ((Kernel.spares_schedule cpu k).mono fun _ _ => same)
  | timerTick => exact leaves_map.2 ((Kernel.timerTick_memory h).mono fun _ _ => same)
  | sweep => exact leaves_map.2 ((Kernel.sweepNow_memory h).mono fun _ _ => same)
  | advance | setClock | registers => exact leaves_map.2 (leaves_modify.2 (same rfl))
  | trapReturn pid =>
    obtain ⟨p, hp, rfl, run⟩ := Kernel.status_eq_running.1 allowed
    exact leaves_map.2 (Kernel.trapReturn_wrote h hp run).leaves
  | sendSignal target n value =>
    exact leaves_map.2 ((Kernel.sendSignal_writes h target n value).leaves.mono fun _ _ => others)
  | futexWake address most =>
    exact leaves_map.2 ((Kernel.spares_futexWake address most k).mono fun _ _ => same)
  | destroy pid =>
    refine leaves_map.2 ?_
    cases hl : k.procs.lookup pid with
    | error e =>
      rw [Kernel.destroy, leaves_bind, leaves_get, hl]
      exact leaves_pure.2 (same rfl)
    | ok p =>
      obtain ⟨hget, live⟩ := ProcessTable.lookup_eq_ok.1 hl
      obtain ⟨hp, rfl⟩ := ProcessTable.get?_eq_some.1 hget
      have hends := Kernel.destroy_ends (put_self hp).symm h hp live (.inl rfl)
      refine (hends.and_leaves (Kernel.destroy_wrote hl)).leaves.mono fun a k' hdestroyed => ?_
      obtain ⟨⟨-, hd⟩, hk'⟩ := hdestroyed
      exact others (Kernel.wrote_locks hk' rfl hget live (hd.dying rfl) rfl rfl rfl rfl)
  | reclaim pid =>
    refine leaves_map.2 ((Kernel.leaves_reclaim k pid).mono fun a k' hk => same ?_)
    obtain ⟨-, -, rfl⟩ | ⟨-, -, -, rfl⟩ := hk <;> rfl
  | memory m => exact absurd rfl (kernel m)

namespace Run

variable {clock : Clock} {ms : List Moment} {k : Kernel} {i : Nat} {m : Moment}

/-- In every moment of a run in which the kernel acts, the memory is the same but for bytes that are
reached where it may write, through pages that user code may write; the address spaces that are
switched in are the same before and after. -/
theorem writes_confined (run : Run (.boot clock) ms k) (hm : ms[i]? = some m)
    (kernel : ∀ memory, m.event ≠ .memory memory) :
    Wrote m.Writes m.before.memory m.after.memory ∧
      m.after.memory.active = m.before.memory.active := by
  obtain ⟨before, allowed, step⟩ := run.before hm
  have hwrote := Event.wrote before.sound allowed kernel _ _ step
  refine ⟨hwrote, ?_⟩
  rw [hwrote.rest]

/-- A process registers its list of locks, another waits on the lock in it, and the owner dies. -/
def giveBackLock : List Event :=
  waitOnOwnedLock ++ [.destroy (.ofSlot 1 0)]

/-- The word of the lock changes when its owner dies. -/
theorem writes_confined_of_giveBackLock :
    ∃ ms k m, play (.boot default) giveBackLock = some (ms, k) ∧ ms[7]? = some m ∧
      m.event = .destroy (.ofSlot 1 0) ∧
      m.before.memory.peek32? 0 0x1010 = some (Pid.ofSlot 1 0).raw ∧
      m.after.memory.peek32? 0 0x1010 = some ownerDiedBit ∧
      Wrote m.Writes m.before.memory m.after.memory ∧
      m.after.memory.active = m.before.memory.active := by
  have hplay : ((play (.boot default) giveBackLock).bind fun r => r.1[7]?.map fun m =>
      (m.before.memory.peek32? 0 0x1010, m.after.memory.peek32? 0 0x1010)) =
      some (some (Pid.ofSlot 1 0).raw, some ownerDiedBit) := by
    decide +kernel
  obtain ⟨⟨ms, k⟩, h, hk⟩ := Option.bind_eq_some_iff.1 hplay
  obtain ⟨m, hm, heq⟩ := Option.map_eq_some_iff.1 hk
  obtain ⟨hbefore, hafter⟩ := Prod.mk.inj heq
  have hevent : m.event = .destroy (.ofSlot 1 0) := by
    have hevents : (ms.map Moment.event)[7]? = some (.destroy (.ofSlot 1 0)) := by
      rw [events_of_play h]
      rfl
    rw [List.getElem?_map, hm] at hevents
    exact Option.some.inj hevents
  have kernel : ∀ memory, m.event ≠ .memory memory := by
    rw [hevent]
    exact nofun
  obtain ⟨hwrote, hactive⟩ := writes_confined (Run.of_play h) hm kernel
  exact ⟨ms, k, m, h, hm, hevent, hbefore, hafter, hwrote, hactive⟩

end Run

end SyncKernel
