import SyncKernel.Proofs.Course
import SyncKernel.Proofs.Leading

/-!
# Callers and bystanders

A system call does something to the process that makes it and next to nothing to the others. What
it does to its caller is one of a few things, of which each comes with its answer
(`Process.Called`). The others keep their signals, and those who run are not touched
(`Process.Spared`), except that a call to send a signal lets its target hear it
(`Process.Overhears`). That is said once for all calls (`Kernel.serve_treats`). What the outcome of
a call tells of its caller, and what a call does to pending signals, are read off from it.
-/

namespace SyncKernel

open Board Step

/-! ## What happens to a record -/

/-- The same registers but for the result of a call. -/
def TrapFrame.SameButResult (f f' : TrapFrame) : Prop :=
  ∀ r, r ≠ .a0 → f'.get r = f.get r

/-- Setting a result changes the result register only. -/
theorem TrapFrame.sameButResult_setReturn (f : TrapFrame) (v : UInt64) :
    f.SameButResult (f.setReturn v) :=
  fun _ hr => get_setReturn_of_ne _ _ hr

/-- The same pending signals, the same wait for one, the same mask and the same actions. -/
structure SignalState.Still (s s' : SignalState) : Prop where
  queue : s'.queue = s.queue
  wait : s'.wait = s.wait
  mask : s'.mask = s.mask
  actions : s'.actions = s.actions

theorem SignalState.Still.refl (s : SignalState) : s.Still s :=
  ⟨rfl, rfl, rfl, rfl⟩

/-- The signals that a call to wait for a signal accepts: those of its argument, but not the kill
signal. -/
def SyscallArgs.accepted (args : SyscallArgs) : SignalSet :=
  (SignalSet.ofWord args.a0).erase killSignal

namespace Process

/-- A change in which a process keeps its status, its processor and its registers but for a
result. -/
structure GoesOn (p p' : Process) : Prop where
  pid : p'.pid = p.pid
  status : p'.status = p.status
  cpu : p'.cpu = p.cpu
  frame : p.frame.SameButResult p'.frame

/-- The record of a process that has begun to wait for one of some signals. -/
def awaiting (p : Process) (accept : SignalSet) (destination : UInt64) : Process :=
  { p with
    signal := { p.signal with
      wait := some ⟨accept, p.signal.mask, destination⟩
      mask := p.signal.mask.difference accept }
    status := .blocked }

/-- What a system call does to the record `p` of the process that makes it, by its answer, before
the answer is put into the registers. -/
inductive Called (p : Process) (call : Syscall) (args : SyscallArgs) :
    Except Errno SyscallOutcome → Process → Prop where
  /-- A word is returned, an error or a result. -/
  | goesOn {a : Except Errno SyscallOutcome} {value : UInt64} {p' : Process}
      (ha : returnWord a = some value) (h : p.GoesOn p') (still : p.signal.Still p'.signal) :
      Called p call args a p'
  /-- The action for a signal is exchanged. -/
  | exchanged {m m' : Memory} {p' : Process} (hc : call = .signalAction)
      (h : p.exchangeAction m args.a0.toUInt32.toNat args.a1 args.a2 = (.ok (), p', m')) :
      Called p call args (.ok (.returned 0)) p'
  /-- A pending signal that is waited for is taken. -/
  | took {e : PendingSignal} {queue : SignalQueue} (hc : call = .signalWait)
      (ht : p.signal.queue.takeFirst args.accepted.contains = some (e, queue)) :
      Called p call args (.ok (.returned 0)) { p with signal := { p.signal with queue } }
  /-- The process sends itself a signal. -/
  | signalled {m m' : Memory} {sent : Sent} {p' : Process} (hc : call = .signalSend)
      (ht : p.pid.resolve args.a0 = .ok p.pid)
      (h : p.sendSignal m args.a1.toUInt32.toNat args.a2 = .ok (.ok sent, p', m')) :
      Called p call args (.ok (.returned 0)) p'
  /-- The process blocks, but not for a signal. -/
  | blocks {p' : Process} (pid : p'.pid = p.pid) (status : p'.status = .blocked)
      (frame : p.frame.SameButResult p'.frame) (still : p.signal.Still p'.signal) :
      Called p call args (.ok .blocked) p'
  /-- The process blocks until it is sent one of some signals. None of them is pending, and the kill
  signal is not. -/
  | waits (hc : call = .signalWait) (some : args.accepted.isEmpty = false)
      (none : p.signal.queue.takeFirst args.accepted.contains = .none)
      (hk : p.signal.queue.contains killSignal = false) :
      Called p call args (.ok .blocked) (p.awaiting args.accepted args.a1)
  /-- The process gives up its processor. -/
  | yields : Called p call args (.ok .yielded)
      { p with frame := p.frame.setReturn 0, status := .runnable }
  /-- The process goes on from where a handler interrupted it. -/
  | leaves (context : TrapFrame) (mask : SignalSet) : Called p call args (.ok .restored)
      { p with
        frame := context.forceUser
        signal := { p.signal with mask := mask.erase killSignal } }
  /-- The process is destroyed. -/
  | dies : Called p call args (.ok .exited) { p.bury with futex := none }

/-- What happens to a process that an operation is not about: its signals are left alone, and if it
runs, so is everything else. -/
structure Spared (p p' : Process) : Prop extends Aside p p' where
  same : p.status = .running → p' = p

/-- What the signal `n`, sent to the process `target`, does to a record. -/
inductive Hears (target : Pid) (n : Nat) (value : UInt64) (p : Process) : Process → Prop where
  /-- The signal is refused, or sent to another process. -/
  | spared {p' : Process} (h : p.Spared p') : Hears target n value p p'
  /-- The signal is sent to the process. -/
  | signalled {m m' : Memory} {sent : Sent} {p' : Process} (ht : p.pid = target)
      (live : p.status ≠ .dying) (ha : sent ≠ .lost)
      (h : p.sendSignal m n value = .ok (.ok sent, p', m')) : Hears target n value p p'
  /-- The process waits for the signal, cannot be told and is destroyed. -/
  | lost {wait : SignalWait} (ht : p.pid = target) (hw : p.signal.wait = some wait)
      (ha : wait.accept.contains n = true) :
      Hears target n value p { (p.leaveWait wait).bury with futex := none }

/-- What a call of the process `pid` does to the record of another process. -/
inductive Overhears (pid : Pid) (call : Syscall) (args : SyscallArgs) (p : Process) :
    Process → Prop where
  | spared {p' : Process} (h : p.Spared p') : Overhears pid call args p p'
  /-- The call sends a signal. -/
  | hears {target : Pid} {p' : Process} (hc : call = .signalSend)
      (ht : pid.resolve args.a0 = .ok target)
      (h : p.Hears target args.a1.toUInt32.toNat args.a2 p') : Overhears pid call args p p'

variable {p p' q : Process}

namespace Spared

theorem refl (p : Process) : p.Spared p :=
  ⟨.refl p, fun _ => rfl⟩

theorem trans (h : p.Spared q) (h' : q.Spared p') : p.Spared p' where
  toAside := h.toAside.trans h'.toAside
  same run := by
    obtain rfl := h.same run
    exact h'.same run

instance : Std.Refl Spared := ⟨refl⟩

instance : IsTrans Process Spared := ⟨fun _ _ _ => trans⟩

/-- A blocked process may be woken, as far as others are concerned. -/
theorem of_blocked (hb : p.status = .blocked) (h : p.Aside p') : p.Spared p' :=
  ⟨h, fun run => by simp [hb] at run⟩

end Spared

theorem GoesOn.refl (p : Process) : p.GoesOn p :=
  ⟨rfl, rfl, rfl, fun _ _ => rfl⟩

namespace Called

variable {call : Syscall} {args : SyscallArgs} {a : Except Errno SyscallOutcome} {m m' : Memory}

/-- A call that does nothing to its caller returns a word. -/
theorem same {value : UInt64} (ha : returnWord a = some value) : p.Called call args a p :=
  .goesOn ha (.refl p) (.refl _)

/-- Registering a list of locks is what belongs to the answer 0. -/
theorem robust {head length : UInt64} (h : p.setRobustList m head length = .ok p') :
    p.Called call args (.ok (.returned 0)) p' := by
  have hs := setRobustList_sameStanding h
  have hp' : p'.frame = p.frame ∧ p'.signal = p.signal := by
    unfold setRobustList at h
    split at h
    · cases h
      exact ⟨rfl, rfl⟩
    split at h
    · cases h
    split at h
    · cases h
    · cases h
      exact ⟨rfl, rfl⟩
  exact .goesOn rfl ⟨hs.pid, hs.status, hs.cpu, fun _ _ => by rw [hp'.1]⟩ (hp'.2 ▸ .refl _)

/-- Registering an entry is what belongs to the answer 0. -/
theorem entry {address : UInt64} (h : p.registerEntry m address = .ok p') :
    p.Called call args (.ok (.returned 0)) p' := by
  obtain ⟨entry, rfl⟩ := registerEntry_eq_ok h
  exact .goesOn rfl ⟨rfl, rfl, rfl, fun _ _ => rfl⟩ ⟨rfl, rfl, rfl, rfl⟩

end Called

/-- An exchange of actions changes nothing but actions. -/
theorem exchangeAction_goesOn {m m' : Memory} {n : Nat} {new old : UInt64}
    (h : p.exchangeAction m n new old = (.ok (), p', m')) :
    p.GoesOn p' ∧ p'.signal.queue = p.signal.queue ∧ p'.signal.wait = p.signal.wait ∧
      p'.signal.mask = p.signal.mask := by
  obtain ⟨_, he, -⟩ | ⟨-, _, _, hx⟩ := exchangeAction_cases h
  · cases he
  obtain rfl | ⟨-, a, rfl⟩ := changeAction_eq_ok hx.changed
  · exact ⟨.refl _, rfl, rfl, rfl⟩
  · refine ⟨⟨rfl, rfl, rfl, fun _ _ => rfl⟩, ?_⟩
    unfold SignalState.setAction
    split <;> exact ⟨rfl, rfl, rfl⟩

/-- A wait for a signal begins only if there is one to wait for and none of them is pending. -/
theorem awaitSignal_eq_none {m m' : Memory} {accept : SignalSet} {destination : UInt64}
    (h : p.awaitSignal m accept destination = (.ok none, p', m')) :
    (accept.erase killSignal).isEmpty = false ∧
      p.signal.queue.takeFirst (accept.erase killSignal).contains = none ∧
      p.signal.queue.contains killSignal = false ∧
      p' = p.awaiting (accept.erase killSignal) destination := by
  unfold awaitSignal at h
  dsimp only at h
  split at h
  · cases h
  next some =>
  split at h
  · cases h
  split at h
  · split at h <;> cases h
  next none =>
  split at h
  · cases h
  next hk =>
  cases h
  exact ⟨Bool.eq_false_iff.2 some, none, Bool.eq_false_iff.2 hk, rfl⟩

end Process

/-! ## Tables -/

/-- The table with the process `p` replaced by `p'`, and every other slot related to what it held.
-/
structure ProcessTable.Around (t : ProcessTable) (p p' : Process) (S : Process → Process → Prop)
    (t' : ProcessTable) : Prop where
  self : t'.at? p.pid.slot = some p'
  rest : ∀ i, p.pid.slot ≠ i → Option.Rel S (t.at? i) (t'.at? i)

namespace ProcessTable.Around

variable {t t' : ProcessTable} {p p' q : Process} {S T : Process → Process → Prop}

/-- A table that changed slot by slot did so around any of its processes. -/
theorem of_each (h : t.Each S t') (self : t'.at? p.pid.slot = some p') : t.Around p p' S t' :=
  ⟨self, fun i _ => h i⟩

theorem refl [Std.Refl S] (hp : t.at? p.pid.slot = some p) : t.Around p p S t :=
  of_each (.refl t) hp

/-- The record of the process in the middle may be replaced once more after a change around it. -/
theorem put (h : t.Around p q S t') (hpid : p'.pid = p.pid) : t.Around p p' S (t'.put p') where
  self := hpid ▸ at?_put_self
  rest i hi := by
    rw [at?_put_of_ne (hpid ▸ hi)]
    exact h.rest i hi

/-- The record of the process in the middle may be replaced before a change around it. -/
theorem of_put (h : (t.put q).Around q p' S t') (hpid : q.pid = p.pid) : t.Around p p' S t' where
  self := hpid ▸ h.self
  rest i hi := by
    have hr := h.rest i (hpid ▸ hi)
    rwa [at?_put_of_ne (hpid ▸ hi)] at hr

theorem mono (hST : ∀ {q q'}, S q q' → T q q') (h : t.Around p p' S t') : t.Around p p' T t' where
  self := h.self
  rest i hi := by
    have hr := h.rest i hi
    revert hr
    cases t.at? i <;> cases t'.at? i <;> intro hr <;> cases hr
    · exact .none
    · next hr => exact .some (hST hr)

/-- A record of the table that comes out is that of the process or the changed one of another. -/
theorem at?_cases (h : t.Around p p' S t') (hp : t.at? p.pid.slot = some p) {i : Fin slotCount}
    {q' : Process} (hq : t.at? i = some q) (hq' : t'.at? i = some q') :
    q = p ∧ q' = p' ∨ S q q' := by
  by_cases hi : p.pid.slot = i
  · subst hi
    exact .inl ⟨Option.some.inj (hq.symm.trans hp), Option.some.inj (hq'.symm.trans h.self)⟩
  · have hr := h.rest i hi
    rw [hq, hq'] at hr
    cases hr with
    | some hr => exact .inr hr

end ProcessTable.Around

/-! ## Bystanders -/

namespace Board

variable {b b' : Board} {p q : Process} {address : UInt64} {pids : List Pid} {locks : List UInt64}
  {pid : Pid}

/-- Waking a process from a futex spares all processes. -/
theorem Wake.each (h : Wake address pid b b') : b.procs.Each Process.Spared b'.procs := by
  cases h with
  | @first _ p _ _ _ _ hp hb =>
    have hspared : p.Spared { p with futex := none, status := .runnable } :=
      .of_blocked hb (.of_status (by simp [hb]) (.inr rfl) rfl rfl rfl rfl)
    exact (ProcessTable.Each.refl _).put hp hspared

/-- Waking processes from a futex spares all processes. -/
theorem Wakes.each (h : Wakes address pids b b') : b.procs.Each Process.Spared b'.procs := by
  induction h with
  | nil => exact .refl _
  | cons h _ ih => exact h.each.trans ih

/-- Waking the waiters of several locks spares all processes. -/
theorem WakesEach.each (h : WakesEach locks b b') : b.procs.Each Process.Spared b'.procs := by
  induction h with
  | nil => exact .refl _
  | cons h _ ih => exact h.each.trans ih

/-- A process begins to wait on a futex in its own call. -/
theorem Deed.exists_of_wait {now : Millis} {subject : Option Pid} {sent : Option SignalRequest}
    {m m' : Memory} (d : Deed now subject sent m m' (.wait pid address) b b') :
    ∃ p, b.procs.at? pid.slot = some p ∧ p.pid = pid ∧
      b'.procs = b.procs.put { p with
        futex := some address, status := .blocked, frame := p.frame.setReturn 0 } := by
  generalize hop : FutexOp.wait pid address = op at d
  cases d with
  | lapses | own | yield | waitSignal | wakes | signal | bury | fatal | lost => cases hop
  | @waitFutex _ p hp =>
    cases hop
    exact ⟨p, hp, rfl, rfl⟩

/-- What the passing of a message does to its running party: it has sent its message or received
one, and goes on. The other party was blocked. -/
theorem Pass.around {sender receiver : Pid} {value : UInt64}
    (m : Pass sender receiver value b b') (hp : b.procs.at? p.pid.slot = some p)
    (run : p.status = .running) (hpid : p.pid = sender ∨ p.pid = receiver) :
    ∃ p', p.GoesOn p' ∧ p.signal.Still p'.signal ∧
      b.procs.Around p p' Process.Spared b'.procs := by
  cases m with
  | @send _ r _ _ hr wait _ _ size perm =>
    have hne : r.pid.slot ≠ p.pid.slot := ProcessTable.slot_ne hr hp (by simp [wait.1, run])
    have hspared : r.Spared (r.handed sender value size perm) :=
      .of_blocked wait.1 (.handed wait sender value size perm)
    refine ⟨p, .refl p, .refl _, .of_each ((ProcessTable.Each.refl _).put hr hspared) ?_⟩
    exact (ProcessTable.at?_put_of_ne (p := r.handed sender value size perm) hne).trans hp
  | @fetch q s hq _ hs wait _ hsnd ht _ buffer capacity size perm =>
    have hne : s.pid.slot ≠ p.pid.slot := ProcessTable.slot_ne hs hp (by simp [wait.1, run])
    obtain rfl : p = q := by
      have hpq : p.pid = q.pid := by
        rcases hpid with hpid | hpid
        · rw [hpid, ← hsnd] at hne
          exact absurd rfl hne
        · rw [hpid, ht]
      rw [← hpq] at hq
      exact Option.some.inj (hp.symm.trans hq)
    have hspared : s.Spared (s.unsent 0) := .of_blocked wait.1 (.unsent wait.1 0)
    have around : b.procs.Around p p Process.Spared (b.procs.put (s.unsent 0)) :=
      .of_each ((ProcessTable.Each.refl _).put hs hspared)
        ((ProcessTable.at?_put_of_ne (p := s.unsent 0) hne).trans hp)
    refine ⟨_, ?_, ?_, around.put ?_⟩
    · exact ⟨rfl, run.symm, rfl, TrapFrame.sameButResult_setReturn p.frame value⟩
    · exact .refl _
    · rfl

/-- A process that begins to wait for a message or for a receiver is blocked with its registers. -/
theorem Ask.around {now : Millis} {what : Option (Pid × Message)} (m : Ask now p.pid what b b')
    (hp : b.procs.at? p.pid.slot = some p) :
    ∃ p', b'.procs = b.procs.put p' ∧ p'.pid = p.pid ∧ p'.status = .blocked ∧
      p'.frame = p.frame ∧ p'.signal = p.signal := by
  generalize hpid : p.pid = pid at m
  cases m with
  | receive hq hq' | send hq hq' =>
    subst hpid
    rw [hq'] at hq
    cases hp.symm.trans hq
    exact ⟨_, rfl, rfl, rfl, rfl, rfl⟩

end Board

namespace Kernel

variable {k k' : Kernel} {p q : Process} {b : Board}

/-- Destroying a process leaves the others alone. -/
theorem Destroyed.around (h : Destroyed b p q k k') (hpid : q.pid = p.pid) :
    b.procs.Around p { q.bury with futex := none } Process.Spared k'.procs where
  self := h.dying hpid
  rest i hi := by
    have hw := h.wakes.each i
    have hat : (b.buried p q).procs.at? i = b.procs.at? i :=
      ProcessTable.at?_put_of_ne (hpid ▸ hi)
    rwa [hat] at hw

/-- What sending a signal does to the records of all processes. If it is refused nothing changes. -/
theorem sendSignal_hears (h : k.board.Sound) (target : Pid) (n : Nat) (value : UInt64) :
    Ends (sendSignal target n value) k fun _ k' =>
      k.procs.Each (Process.Hears target n value) k'.procs := by
  have refl : k.procs.Each (Process.Hears target n value) k.procs := fun i => by
    cases k.procs.at? i with
    | none => exact .none
    | some p => exact .some (.spared (.refl p))
  rw [sendSignal, ends_bind, ends_ofLive]
  cases hl : k.procs.lookup target with
  | error e => exact .inl ⟨e, rfl, ends_pure.2 refl⟩
  | ok p =>
    obtain ⟨hget, live⟩ := ProcessTable.lookup_eq_ok.1 hl
    obtain ⟨hp, rfl⟩ := ProcessTable.get?_eq_some.1 hget
    have hs : p.Settled := h.settled hp
    obtain ⟨a, p', m', hsend, hsig⟩ := p.sendSignal_ends hs k.memory n value
    refine .inr ⟨p, a, p', m', rfl, hsend, ?_⟩
    cases a with
    | error e =>
      cases hsig
      rw [put_record_self hp]
      exact ends_pure.2 refl
    | ok sent =>
      rw [ends_bind]
      refine (noteSent_ends p.pid n sent).mono fun _ k₂ hk₂ => ?_
      have hput : k₂.board = k.board.put p' := hk₂.1.board
      split
      · next hlost =>
        subst hlost
        cases hsig with
        | @lost wait e hw hk ha hm =>
          rw [ends_bind, ends_note]
          refine (destroy_ends (k := k₂.noted _) hput h hp live (.inr ⟨wait, hw, rfl⟩)).mono
            fun a k' hd i => ?_
          have around := hd.2.around rfl
          by_cases hi : p.pid.slot = i
          · subst hi
            rw [around.self, hp]
            exact .some (.lost rfl hw ha)
          · exact (around.mono .spared).rest i hi
      · next hlost =>
        refine ends_pure.2 ?_
        have hprocs : k₂.procs = k.procs.put p' := congrArg Board.procs hput
        rw [hprocs]
        exact refl.put (hsig.pid ▸ hp) (.signalled rfl live hlost hsend)

/-! ## Callers -/

/-- A call of the process `p` did to its caller what belongs to its answer, and left the others
alone unless it sent them a signal. -/
def Treats (k : Kernel) (p : Process) (call : Syscall) (args : SyscallArgs)
    (a : Except Errno SyscallOutcome) (k' : Kernel) : Prop :=
  ∃ p', p.Called call args a p' ∧
    k.procs.Around p p' (Process.Overhears p.pid call args) k'.procs

section
variable {call : Syscall} {args : SyscallArgs} {a : Except Errno SyscallOutcome} {p' : Process}

instance (pid : Pid) : Std.Refl (Process.Overhears pid call args) :=
  ⟨fun p => .spared (.refl p)⟩

namespace Treats

/-- A call that changes nothing. -/
theorem same (hp : k.procs.at? p.pid.slot = some p) {value : UInt64}
    (ha : returnWord a = some value) : k.Treats p call args a k :=
  ⟨p, .same ha, .refl hp⟩

/-- A call that changes the record of its caller. -/
theorem of_put (hp : k.procs.at? p.pid.slot = some p) (hprocs : k'.procs = k.procs.put p')
    (hpid : p'.pid = p.pid) (h : p.Called call args a p') : k.Treats p call args a k' :=
  ⟨p', h, hprocs ▸ (ProcessTable.Around.refl hp).put hpid⟩

/-- A call that leaves its caller alone and changes others. -/
theorem of_each (hp : k'.procs.at? p.pid.slot = some p) (h : k.procs.Each Process.Spared k'.procs)
    {value : UInt64} (ha : returnWord a = some value) : k.Treats p call args a k' :=
  ⟨p, .same ha, .of_each (h.mono .spared) hp⟩

end Treats

variable (h : k.board.Sound) (hp : k.procs.at? p.pid.slot = some p) (run : p.status = .running)
include hp run

/-- Registering a list of locks does to the caller what belongs to the answer. -/
theorem serveSetRobustList_treats :
    Ends (serveSetRobustList p.pid args) k fun a k' => k.Treats p .setRobustList args a k' := by
  unfold serveSetRobustList
  cases hr : p.setRobustList k.memory args.a0 args.a1 with
  | error e => exact ends_ofLive_same hp run (by rw [hr]) (.same hp rfl)
  | ok p' =>
    refine ends_ofLive_running hp run (by rw [hr]) fun k' hb _ _ => ?_
    have hs := Process.setRobustList_sameStanding hr
    exact .of_put hp (congrArg Board.procs hb) hs.pid (.robust hr)

/-- Registering an entry does to the caller what belongs to the answer. -/
theorem serveSignalEntry_treats :
    Ends (serveSignalEntry p.pid args) k fun a k' => k.Treats p .signalEntry args a k' := by
  unfold serveSignalEntry
  cases hr : p.registerEntry k.memory args.a0 with
  | error e => exact ends_ofLive_same hp run (by rw [hr]) (.same hp rfl)
  | ok p' =>
    refine ends_ofLive_running hp run (by rw [hr]) fun k' hb _ _ => ?_
    have hs := Process.registerEntry_sameStanding hr
    exact .of_put hp (congrArg Board.procs hb) hs.pid (.entry hr)

/-- Exchanging an action does to the caller what belongs to the answer. -/
theorem serveSignalAction_treats :
    Ends (serveSignalAction p.pid args) k fun a k' => k.Treats p .signalAction args a k' := by
  rw [serveSignalAction]
  split
  · exact ends_pure.2 (.same hp rfl)
  rw [ends_bind]
  generalize hr : p.exchangeAction k.memory args.a0.toUInt32.toNat args.a1 args.a2 = r
  obtain ⟨a, p', m⟩ := r
  cases a with
  | error e =>
    obtain ⟨_, _, rfl, rfl⟩ | ⟨hok, _⟩ := Process.exchangeAction_cases hr
    · refine ends_ofLive_same hp run (by rw [hr]) (ends_pure.2 ?_)
      exact .same hp rfl
    · cases hok
  | ok =>
    refine ends_ofLive_running hp run (by rw [hr]) fun k' hb _ _ => ends_pure.2 ?_
    have hs := Process.exchangeAction_sameStanding hr
    exact .of_put hp (congrArg Board.procs hb) hs.pid (.exchanged rfl hr)

/-- Waiting for a signal does to the caller what belongs to the answer. -/
theorem serveSignalWait_treats :
    Ends (serveSignalWait p.pid args) k fun a k' => k.Treats p .signalWait args a k' := by
  rw [serveSignalWait, ends_bind]
  generalize hr : p.awaitSignal k.memory (.ofWord args.a0) args.a1 = r
  obtain ⟨a, p', m⟩ := r
  cases a with
  | error e =>
    cases Process.awaitSignal_awaits hr with
    | refused =>
      refine ends_ofLive_same hp run (by rw [hr]) (ends_pure.2 ?_)
      exact .same hp rfl
  | ok taken =>
    refine ends_ofLive_running hp run (by rw [hr]) fun k' hb _ _ => ?_
    cases taken with
    | some n =>
      simp only [noteAwait, ends_bind, ends_pure]
      cases Process.awaitSignal_awaits hr with
      | taken ht => exact .of_put hp (congrArg Board.procs hb) rfl (.took rfl ht)
    | none =>
      simp only [noteAwait, ends_bind, ends_note, ends_pure]
      obtain ⟨some, none, hk, rfl⟩ := Process.awaitSignal_eq_none hr
      have called : p.Called .signalWait args _ _ := .waits rfl some none hk
      exact .of_put hp (congrArg Board.procs hb) rfl called

/-- Yielding does to the caller what belongs to the answer. -/
theorem serveYield_treats :
    Ends (serveYield p.pid) k fun a k' => k.Treats p .yield args a k' := by
  rw [serveYield, ends_bind]
  refine ends_ofLive_running hp run rfl fun k₁ hb _ _ => ?_
  have hput : k₁.procs = k.procs.put { p with frame := p.frame.setReturn 0 } :=
    congrArg Board.procs hb
  have hget : k₁.procs.get? p.pid = some { p with frame := p.frame.setReturn 0 } := by
    rw [hput]
    exact ProcessTable.get?_put_self
  simp only [ends_bind, ends_modify, ends_pure, Population.yield]
  rw [ProcessTable.update_eq_put hget (by simp [run]), if_pos run]
  have hprocs : k₁.procs.put { p with frame := p.frame.setReturn 0, status := .runnable } =
      k.procs.put { p with frame := p.frame.setReturn 0, status := .runnable } := by
    rw [hput]
    exact ProcessTable.put_put rfl
  have around : k.procs.Around p { p with frame := p.frame.setReturn 0, status := .runnable }
      (Process.Overhears p.pid .yield args)
      (k₁.procs.put { p with frame := p.frame.setReturn 0, status := .runnable }) := by
    rw [hprocs]
    exact (ProcessTable.Around.refl hp).put rfl
  exact ⟨_, .yields, around⟩

include h

/-- Leaving a handler does to the caller what belongs to the answer, which may be that it is killed.
-/
theorem serveSignalReturn_treats :
    Ends (serveSignalReturn p.pid args) k fun a k' => k.Treats p .signalReturn args a k' := by
  rw [serveSignalReturn, ends_bind]
  cases hl : p.leaveHandler k.memory args.a0 with
  | error e =>
    refine ends_ofLive_running hp run (by rw [leaveHandler, hl]) fun k₁ hb _ _ => ?_
    rw [put_self hp] at hb
    have hp₁ : k₁.board.procs.at? p.pid.slot = some p := hb ▸ hp
    simp only [ends_bind, ends_pure]
    refine (kill_ends (hb ▸ h) hp₁ (by simp [run]) .badFrame).mono fun _ k' hd => ?_
    rw [hb] at hd
    exact ⟨_, .dies, (hd.around rfl).mono .spared⟩
  | ok p' =>
    refine ends_ofLive_running hp run (by rw [leaveHandler, hl]) fun k₁ hb _ _ => ?_
    simp only [ends_bind, ends_note, ends_pure]
    obtain ⟨context, mask, rfl⟩ := Process.leaveHandler_eq_ok hl
    have called : p.Called .signalReturn args _ _ := .leaves context mask
    exact .of_put hp (congrArg Board.procs hb) rfl called

/-- Sending a signal does to the caller what belongs to the answer, and more only if it is the
target. -/
theorem serveSignalSend_treats :
    Ends (serveSignalSend p.pid args) k fun a k' => k.Treats p .signalSend args a k' := by
  rw [serveSignalSend]
  cases ht : p.pid.resolve args.a0 with
  | error e => exact ends_pure.2 (.same hp rfl)
  | ok target =>
    have hsend := sendSignal_ends h target args.a1.toUInt32.toNat args.a2 none
    obtain ⟨a, k', hrun, hears⟩ := sendSignal_hears h target args.a1.toUInt32.toNat args.a2
    have hsame := (hsend.of_eq hrun).2.2
    rw [ends_bind]
    refine ⟨a, k', hrun, ?_⟩
    cases a with
    | error e =>
      cases hsame e rfl
      exact ends_pure.2 (.same hp rfl)
    | ok =>
      obtain ⟨p', hp', heard⟩ := hears.exists_after hp
      refine ends_pure.2 ⟨p', ?_, .of_each (hears.mono (.hears rfl ht)) hp'⟩
      -- the caller runs, so it does not wait for the signal
      cases heard with
      | spared hs => exact hs.same run ▸ .same rfl
      | signalled hpid _ _ hsig => exact .signalled rfl (hpid ▸ ht) hsig
      | lost _ hw =>
        have awake : p.signal.wait = none := (h.settled hp).wait_eq_none (by simp [run])
        cases awake.symm.trans hw

/-- The futex call does to the caller what belongs to the answer. -/
theorem serveFutex_treats :
    Ends (serveFutex p.pid args) k fun a k' => k.Treats p .futex args a k' := by
  rw [serveFutex, if_neg (by simp [futexEnabled])]
  split
  · rw [ends_bind]
    refine (futexWait_ends ⟨p, hp, rfl, run⟩ h _ _).mono fun a k' hcases => ?_
    obtain ⟨e, rfl, rfl⟩ | ⟨rfl, ⟨op, hop, d⟩, -⟩ := hcases
    · exact ends_pure.2 (.same hp rfl)
    obtain rfl : op = .wait p.pid args.a0 := hop.resolve_right (by simp)
    obtain ⟨q, hq, hpid, hprocs⟩ := d.exists_of_wait
    cases hp.symm.trans hq
    have called : p.Called .futex args (.ok .blocked)
        { p with futex := some args.a0, status := .blocked, frame := p.frame.setReturn 0 } :=
      .blocks rfl rfl (TrapFrame.sameButResult_setReturn p.frame 0) (.refl _)
    exact ends_pure.2 (.of_put hp hprocs rfl called)
  split
  · rw [ends_bind]
    refine (futexWake_ends h _ _).mono fun count k' hk => ends_pure.2 ?_
    obtain ⟨-, -, hw⟩ := hk
    exact .of_each (hw.at?_of_ne hp (by simp [run])) hw.each rfl
  · exact ends_pure.2 (.same hp rfl)

omit h in
/-- A call on messages leaves others alone, but for a blocked call that it ends. -/
theorem ComesTo.treats (ht : ComesTo p.pid call args a k k')
    (hc : call.sends = true ∨ call.receives = true) : k.Treats p call args a k' := by
  have ho := ht.outcome
  have passed : ∀ {sender receiver : Pid} {value : UInt64}, p.pid = sender ∨ p.pid = receiver →
      Pass sender receiver value k.board k'.board →
      ∀ {v : UInt64}, k.Treats p call args (.ok (.returned v)) k' := by
    intro sender receiver value hpid hpass v
    obtain ⟨p', goesOn, still, around⟩ := hpass.around hp run hpid
    exact ⟨p', .goesOn rfl goesOn still, around.mono .spared⟩
  have asked : ∀ {what : Option (Pid × Message)},
      Ask k.clock.now p.pid what k.board k'.board → k.Treats p call args (.ok .blocked) k' := by
    intro what hask
    obtain ⟨p', hprocs, hpid, status, frame, signal⟩ := hask.around hp
    exact .of_put hp hprocs hpid (.blocks hpid status (frame ▸ fun _ _ => rfl) (signal ▸ .refl _))
  generalize hk' : k'.board = b' at ho passed asked
  cases ho with
  | deed hs hr => simp [hs, hr] at hc
  | refused =>
    cases ht.refused _ rfl
    exact .same hp rfl
  | sent _ _ hpass => exact passed (.inl rfl) hpass
  | received _ hpass => exact passed (.inr rfl) hpass
  | asksToSend _ _ hask | asksToReceive _ hask => exact asked hask

/-- Serving a call of a running process does to its caller what belongs to the answer. -/
theorem serve_treats (call : Syscall) :
    Ends (serve p.pid args call) k fun a k' => k.Treats p call args a k' := by
  have hr : k.board.Runs p.pid := ⟨p, hp, rfl, run⟩
  cases call with
  | futex => exact serveFutex_treats h hp run
  | setRobustList => exact serveSetRobustList_treats hp run
  | yield => exact serveYield_treats hp run
  | signalAction => exact serveSignalAction_treats hp run
  | signalWait => exact serveSignalWait_treats hp run
  | signalSend => exact serveSignalSend_treats h hp run
  | signalReturn => exact serveSignalReturn_treats h hp run
  | signalEntry => exact serveSignalEntry_treats hp run
  | trySend =>
    exact (serveTrySend_ends hr args h).mono fun _ _ ht => ht.treats hp run (.inl rfl)
  | sendTimeout =>
    exact (serveSendTimeout_ends hr args h).mono fun _ _ ht => ht.treats hp run (.inl rfl)
  | receive =>
    exact (serveReceive_comesTo h hr args none rfl).mono
      fun _ _ ht => ht.treats hp run (.inr rfl)
  | receiveTimeout =>
    exact (serveReceive_comesTo h hr args (some args.a2) rfl).mono
      fun _ _ ht => ht.treats hp run (.inr rfl)

end

end Kernel

end SyncKernel
