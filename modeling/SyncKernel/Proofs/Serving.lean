import SyncKernel.Proofs.Messages
import SyncKernel.Proofs.Processes

/-!
# System calls

What serving a system call of a running process does to the board. None of the calls stops with a
fault. A call that has nothing to do with messages is one deed (`Serves`), in which the futex call
changes the futex queues as its arguments say (`SyscallArgs.futexOp`) and the call to send a signal
sends it (`SyscallArgs.signal?`); what the others come to is `Outcome`: a message passes and the
call answers at once, the caller is blocked, or the call is refused and the board stays as it is.
`serve_ends` gives the outcome of every call, and `syscall_ends` adds the result that is put into
the registers of the caller.

A call that is refused changes nothing, not even one that changes something before the last point
at which it could be refused (`Process.exchangeAction_cases`, `Process.awaitSignal_awaits`).
-/

namespace SyncKernel

namespace Syscall

/-- The call sends a message. -/
def sends : Syscall → Bool
  | trySend | sendTimeout => true
  | _ => false

/-- The call receives a message. -/
def receives : Syscall → Bool
  | receive | receiveTimeout => true
  | _ => false

end Syscall

namespace SyscallArgs

/-- The operation on the futex queues that a futex call of the process `pid` is, with the outcome
that it comes to. -/
def futexOp (args : SyscallArgs) (pid : Pid) (o : SyscallOutcome) : FutexOp :=
  if args.a1 = 0 then if o = .blocked then .wait pid args.a0 else .none
  else if args.a1 = 1 then .wake args.a0 args.a2.toNat
  else .none

/-- The signal that a call of the process `pid` to send one sends, if the target is an id. -/
def signal? (args : SyscallArgs) (pid : Pid) : Option SignalRequest :=
  match pid.resolve args.a0 with
  | .ok target => some ⟨target, args.a1.toUInt32.toNat, args.a2⟩
  | .error _ => none

end SyscallArgs

namespace Syscall

/-- The operation on the futex queues that a system call of the process `pid` is. -/
def futexOp (call : Syscall) (pid : Pid) (args : SyscallArgs) (o : SyscallOutcome) : FutexOp :=
  match call with
  | futex => args.futexOp pid o
  | _ => .none

/-- The signal that a system call of the process `pid` sends. -/
def signal? (call : Syscall) (pid : Pid) (args : SyscallArgs) : Option SignalRequest :=
  match call with
  | signalSend => args.signal? pid
  | _ => none

/-- Only the futex call asks for an operation on futexes. -/
theorem futexOp_of_ne {call : Syscall} {pid : Pid} {args : SyscallArgs} {o : SyscallOutcome}
    (h : call ≠ futex) : call.futexOp pid args o = .none := by
  cases call <;> first | rfl | exact absurd rfl h

end Syscall

/-- The outcome of a system call with an answer: a refusal returns the word of its error. -/
def SyscallOutcome.ofAnswer : Except Errno SyscallOutcome → SyscallOutcome
  | .ok outcome => outcome
  | .error e => .returned e.toWord

/-- The word that a system call returns to a caller that goes on. -/
def returnWord : Except Errno SyscallOutcome → Option UInt64
  | .ok (.returned value) => some value
  | .ok _ => none
  | .error e => some e.toWord

/-- What a system call of the process `pid` at time `now` comes to, and what it does to the board.
The call finds the memory `m` and leaves the memory `m'`. -/
inductive Outcome (now : Millis) (pid : Pid) (call : Syscall) (args : SyscallArgs) (m m' : Memory) :
    Except Errno SyscallOutcome → Board → Board → Prop where
  /-- A call that has nothing to do with messages is a deed, and a futex that is woken counts. -/
  | deed {answer : Except Errno SyscallOutcome} {b b' : Board} (hs : call.sends = false)
      (hr : call.receives = false)
      (h : Board.Does now (some pid) (call.signal? pid args) m m'
        (call.futexOp pid args (.ofAnswer answer)) b b')
      (count : ∀ address most, call.futexOp pid args (.ofAnswer answer) = .wake address most →
        answer = .ok (.returned (UInt64.ofNat (min most (b.futexes.queue address).length)))) :
      Outcome now pid call args m m' answer b b'
  /-- A call on messages is refused. -/
  | refused {e : Errno} {b : Board} (hc : call.sends = true ∨ call.receives = true) :
      Outcome now pid call args m m' (.error e) b b
  /-- The message of a send passes. -/
  | sent {b b' : Board} {target : Pid} (hs : call.sends = true)
      (ht : pid.resolve args.a0 = .ok target) (h : Board.Pass pid target args.a1 b b') :
      Outcome now pid call args m m' (.ok (.returned 0)) b b'
  /-- A message passes to a receive. -/
  | received {b b' : Board} {sender : Pid} {value : UInt64} (hr : call.receives = true)
      (h : Board.Pass sender pid value b b') :
      Outcome now pid call args m m' (.ok (.returned value)) b b'
  /-- A send waits for its target. -/
  | asksToSend {b b' : Board} {target : Pid} (hs : call.sends = true)
      (ht : pid.resolve args.a0 = .ok target)
      (h : Board.Ask now pid (some (target, .ofArgs args)) b b') :
      Outcome now pid call args m m' (.ok .blocked) b b'
  /-- A receive waits for a message. -/
  | asksToReceive {b b' : Board} (hr : call.receives = true) (h : Board.Ask now pid none b b') :
      Outcome now pid call args m m' (.ok .blocked) b b'

section
variable {b b' : Board} {pid : Pid}

/-- Processes that run go on running when a message passes. -/
theorem Board.Pass.runs {sender receiver : Pid} {value : UInt64}
    (m : Pass sender receiver value b b') (hr : b.Runs pid) : b'.Runs pid := by
  cases m with
  | send _ _ hr' wait _ _ _ _ =>
    exact hr.put hr' rfl fun run => absurd wait.1 (by simp [run])
  | @fetch p s hp run hs wait _ _ _ _ _ _ _ _ =>
    have hne : s.pid.slot ≠ p.pid.slot := ProcessTable.slot_ne hs hp (by simp [wait.1, run])
    have h₁ : (b.put (s.unsent 0)).Runs pid :=
      hr.put hs rfl fun run => absurd wait.1 (by simp [run])
    have hp₁ : (b.put (s.unsent 0)).procs.at? p.pid.slot = some p :=
      (ProcessTable.at?_put_of_ne (p := s.unsent 0) hne).trans hp
    exact h₁.put hp₁ rfl fun _ => rfl

/-- A caller to which a call on messages returns a word still runs. -/
theorem Outcome.runs {now : Millis} {call : Syscall} {args : SyscallArgs} {m m' : Memory}
    {a : Except Errno SyscallOutcome} (o : Outcome now pid call args m m' a b b')
    (hc : call.sends = true ∨ call.receives = true) (hr : b.Runs pid) {value : UInt64}
    (hv : returnWord a = some value) : b'.Runs pid := by
  cases o with
  | deed hs hr' _ _ => simp [hs, hr'] at hc
  | refused => exact hr
  | sent _ _ hpass => exact hpass.runs hr
  | received _ hpass => exact hpass.runs hr
  | asksToSend | asksToReceive => cases hv

end

/-! ## Calls that have nothing to do with messages -/

namespace Kernel

open Board Step

variable {k k' : Kernel} {p p' : Process} {pid : Pid}

/-- A call of the process `pid` was one deed, with a futex that was woken counted. Its caller still
runs if a word is returned to it, and nothing changed if the call was refused. -/
structure Serves (pid : Pid) (call : Syscall) (args : SyscallArgs)
    (answer : Except Errno SyscallOutcome) (k k' : Kernel) : Prop where
  did : Did (some pid) (call.signal? pid args) (call.futexOp pid args (.ofAnswer answer)) k k'
  count : ∀ address most, call.futexOp pid args (.ofAnswer answer) = .wake address most →
    answer = .ok (.returned (UInt64.ofNat (min most (k.futexes.queue address).length)))
  runs : ∀ value, returnWord answer = some value → k'.board.Runs pid
  refused : ∀ e, answer = .error e → k' = k

namespace Serves

variable {call : Syscall} {args : SyscallArgs} {answer : Except Errno SyscallOutcome}

/-- A call that is no operation on the futex queues. -/
theorem of_did (hop : call.futexOp pid args (.ofAnswer answer) = .none)
    (did : Did (some pid) (call.signal? pid args) .none k k')
    (runs : ∀ value, returnWord answer = some value → k'.board.Runs pid)
    (refused : ∀ e, answer = .error e → k' = k) : Serves pid call args answer k k' :=
  ⟨hop ▸ did, fun _ _ hwake => by simp [hop] at hwake, runs, refused⟩

/-- A call that changes nothing. -/
theorem refl (hop : call.futexOp pid args (.ofAnswer answer) = .none) (hr : k.board.Runs pid) :
    Serves pid call args answer k k :=
  .of_did hop (.of_board rfl rfl) (fun _ _ => hr) fun _ _ => rfl

/-- A call in which a running process changes its own record. -/
theorem of_own {o : SyscallOutcome} (hop : call.futexOp p.pid args o = .none)
    (hp : k.board.procs.at? p.pid.slot = some p) (run : p.status = .running)
    (own : p.Own p') (hb : k'.board = k.board.put p') (hc : k'.clock = k.clock) :
    Serves p.pid call args (.ok o) k k' := by
  have hs := own.sameStanding
  refine .of_did hop ⟨hb ▸ (Deed.own hp run own).does, hc⟩ (fun _ _ => hb ▸ ?_) nofun
  exact ⟨p', hs.pid ▸ ProcessTable.at?_put_self, hs.pid, hs.status.trans run⟩

/-- A call that returns no word. -/
theorem of_blocked {o : SyscallOutcome} (hop : call.futexOp pid args o = .none)
    (did : Did (some pid) (call.signal? pid args) .none k k')
    (hret : returnWord (.ok o) = none) : Serves pid call args (.ok o) k k' :=
  .of_did hop did (fun value hv => by simp [hret] at hv) nofun

end Serves

/-- An operation on a running process ends with what its function makes of the record. -/
theorem ends_ofLive_running {α : Type} {a : Except Errno α} {m : Memory}
    {f : Process → Memory → Except Fault (Except Errno α × Process × Memory)}
    {Q : Except Errno α → Kernel → Prop} (hp : k.board.procs.at? p.pid.slot = some p)
    (run : p.status = .running) (hf : f p k.memory = .ok (a, p', m))
    (hQ : ∀ k', k'.board = k.board.put p' → k'.memory = m → k'.clock = k.clock → Q a k') :
    Ends (ofLive p.pid f) k Q :=
  ends_ofLive.2 (.inr ⟨p, a, p', m, ProcessTable.lookup_of_live hp (by simp [run]), hf,
    hQ _ rfl rfl rfl⟩)

/-- An operation on a running process that leaves the record and the memory leaves the kernel. -/
theorem ends_ofLive_same {α : Type} {a : Except Errno α}
    {f : Process → Memory → Except Fault (Except Errno α × Process × Memory)}
    {Q : Except Errno α → Kernel → Prop} (hp : k.board.procs.at? p.pid.slot = some p)
    (run : p.status = .running) (hf : f p k.memory = .ok (a, p, k.memory)) (hQ : Q a k) :
    Ends (ofLive p.pid f) k Q := by
  refine ends_ofLive.2 (.inr ⟨p, a, p, k.memory, ProcessTable.lookup_of_live hp (by simp [run]),
    hf, ?_⟩)
  rwa [put_record_self hp]

section
variable (hr : k.board.Runs pid) (args : SyscallArgs)
include hr

/-- Registering a list of locks does not stop, and is one deed. -/
theorem serveSetRobustList_ends :
    Ends (serveSetRobustList pid args) k fun a k' => Serves pid .setRobustList args a k k' := by
  have hr' := hr
  obtain ⟨p, hp, rfl, run⟩ := hr
  unfold serveSetRobustList
  cases h : p.setRobustList k.memory args.a0 args.a1 with
  | error e => exact ends_ofLive_same hp run (by rw [h]) (.refl rfl hr')
  | ok p' =>
    refine ends_ofLive_running hp run (by rw [h]) fun k' hb _ hc => ?_
    exact .of_own rfl hp run (.robust h) hb hc

/-- Registering an entry does not stop, and is one deed. -/
theorem serveSignalEntry_ends :
    Ends (serveSignalEntry pid args) k fun a k' => Serves pid .signalEntry args a k k' := by
  have hr' := hr
  obtain ⟨p, hp, rfl, run⟩ := hr
  unfold serveSignalEntry
  cases h : p.registerEntry k.memory args.a0 with
  | error e => exact ends_ofLive_same hp run (by rw [h]) (.refl rfl hr')
  | ok p' =>
    refine ends_ofLive_running hp run (by rw [h]) fun k' hb _ hc => ?_
    exact .of_own rfl hp run (.entry h) hb hc

/-- Exchanging an action does not stop, and is one deed. -/
theorem serveSignalAction_ends :
    Ends (serveSignalAction pid args) k fun a k' => Serves pid .signalAction args a k k' := by
  have hr' := hr
  rw [serveSignalAction]
  split
  · exact ends_pure.2 (.refl rfl hr)
  obtain ⟨p, hp, rfl, run⟩ := hr
  rw [ends_bind]
  generalize h : p.exchangeAction k.memory args.a0.toUInt32.toNat args.a1 args.a2 = r
  obtain ⟨a, p', m⟩ := r
  cases a with
  | error e =>
    obtain ⟨_, _, rfl, rfl⟩ | ⟨hok, _⟩ := Process.exchangeAction_cases h
    · refine ends_ofLive_same hp run (by rw [h]) (ends_pure.2 ?_)
      exact .refl rfl hr'
    · cases hok
  | ok =>
    refine ends_ofLive_running hp run (by rw [h]) fun k' hb _ hc => ends_pure.2 ?_
    exact .of_own rfl hp run (.action h) hb hc

/-- Waiting for a signal does not stop, and is one deed. -/
theorem serveSignalWait_ends :
    Ends (serveSignalWait pid args) k fun a k' => Serves pid .signalWait args a k k' := by
  have hr' := hr
  obtain ⟨p, hp, rfl, run⟩ := hr
  rw [serveSignalWait, ends_bind]
  generalize h : p.awaitSignal k.memory (.ofWord args.a0) args.a1 = r
  obtain ⟨a, p', m⟩ := r
  cases a with
  | error e =>
    cases Process.awaitSignal_awaits h with
    | refused =>
      refine ends_ofLive_same hp run (by rw [h]) (ends_pure.2 ?_)
      exact .refl rfl hr'
  | ok taken =>
    refine ends_ofLive_running hp run (by rw [h]) fun k' hb _ hc => ?_
    cases taken with
    | some n =>
      simp only [noteAwait, ends_bind, ends_pure]
      exact .of_own rfl hp run (.take h (by simp)) hb hc
    | none =>
      simp only [noteAwait, ends_bind, ends_note, ends_pure]
      exact .of_blocked rfl ⟨hb ▸ (Deed.waitSignal hp run h).does, hc⟩ rfl

/-- Yielding does not stop, and is one deed. -/
theorem serveYield_ends : Ends (serveYield pid) k fun a k' => Serves pid .yield args a k k' := by
  obtain ⟨p, hp, rfl, run⟩ := hr
  rw [serveYield, ends_bind]
  refine ends_ofLive_running hp run rfl fun k₁ hb _ hc => ?_
  have hput : k₁.procs = k.procs.put { p with frame := p.frame.setReturn 0 } :=
    congrArg Board.procs hb
  have hget : k₁.procs.get? p.pid = some { p with frame := p.frame.setReturn 0 } := by
    rw [hput]
    exact ProcessTable.get?_put_self
  simp only [ends_bind, ends_modify, ends_pure, Population.yield]
  rw [ProcessTable.update_eq_put hget (by simp [run]), if_pos run]
  refine .of_blocked rfl ⟨?_, hc⟩ rfl
  have hprocs : k₁.procs.put { p with frame := p.frame.setReturn 0, status := .runnable } =
      k.procs.put { p with frame := p.frame.setReturn 0, status := .runnable } := by
    rw [hput]
    exact ProcessTable.put_put rfl
  have hd : Does k.clock.now (some p.pid) none k.memory k₁.memory .none k.board
      (k.board.put { p with frame := p.frame.setReturn 0, status := .runnable }) :=
    (Deed.yield hp run).does
  have hboard : k.board.put { p with frame := p.frame.setReturn 0, status := .runnable } =
      ⟨k₁.procs.put { p with frame := p.frame.setReturn 0, status := .runnable }, k₁.cpus,
        k₁.futexes⟩ :=
    Board.ext hprocs.symm (congrArg Board.cpus hb).symm (congrArg Board.futexes hb).symm
  rw [hboard] at hd
  exact hd

/-- Leaving a handler does not stop, and is one deed. -/
theorem serveSignalReturn_ends (h : k.board.Sound) :
    Ends (serveSignalReturn pid args) k fun a k' => Serves pid .signalReturn args a k k' := by
  obtain ⟨p, hp, rfl, run⟩ := hr
  rw [serveSignalReturn, ends_bind]
  cases hl : p.leaveHandler k.memory args.a0 with
  | error e =>
    refine ends_ofLive_running hp run (by rw [leaveHandler, hl]) fun k₁ hb hm hc => ?_
    rw [put_self hp] at hb
    have hp₁ : k₁.board.procs.at? p.pid.slot = some p := hb ▸ hp
    have live : p.status ≠ .dying := by simp [run]
    simp only [ends_bind, ends_pure]
    refine (kill_ends (hb ▸ h) hp₁ live .badFrame).mono fun _ k' hd => ?_
    have hd' : Destroyed k.board p p k k' :=
      ⟨by simpa only [hb, hm] using hd.wakes, hd.clock.trans hc⟩
    exact .of_blocked rfl (hd'.did hp live _) rfl
  | ok p' =>
    refine ends_ofLive_running hp run (by rw [leaveHandler, hl]) fun k₁ hb _ hc => ?_
    simp only [ends_bind, ends_note, ends_pure]
    refine .of_own rfl hp run (.leave hl) ?_ ?_
    · exact hb
    · exact hc

/-- Sending a signal does not stop, and is one deed. -/
theorem serveSignalSend_ends (h : k.board.Sound) :
    Ends (serveSignalSend pid args) k fun a k' => Serves pid .signalSend args a k k' := by
  rw [serveSignalSend]
  cases ht : pid.resolve args.a0 with
  | error e => exact ends_pure.2 (.refl rfl hr)
  | ok target =>
    have hsent : Syscall.signalSend.signal? pid args =
        some ⟨target, args.a1.toUInt32.toNat, args.a2⟩ := by
      simp [Syscall.signal?, SyscallArgs.signal?, ht]
    rw [ends_bind]
    refine (sendSignal_ends h target _ _ (some pid)).mono fun a k' ⟨hd, hruns, hsame⟩ => ?_
    rw [← hsent] at hd
    cases a with
    | error e => exact ends_pure.2 (.of_did rfl hd (fun _ _ => hruns pid hr) fun _ _ => hsame e rfl)
    | ok => exact ends_pure.2 (.of_did rfl hd (fun _ _ => hruns pid hr) nofun)

/-- A running process waits on a futex or is refused. -/
theorem futexWait_ends (h : k.board.Sound) (address : UInt64) (expected : UInt32) :
    Ends (futexWait pid address expected) k fun a k' =>
      (∃ e, a = .error e ∧ k' = k) ∨
        (a = .ok () ∧ Did (some pid) none (.wait pid address) k k') := by
  obtain ⟨p, hp, rfl, run⟩ := hr
  have hlook : k.procs.lookup p.pid = .ok p :=
    ProcessTable.lookup_of_live hp (by simp [run])
  have hf : p.futex = none := (h.settled hp).futex_eq_none (by simp [run])
  rw [futexWait, ends_bind, ends_get, Population.futexWait, hlook]
  by_cases halign : address.toNat % 4 ≠ 0
  · simp only [if_pos halign, ends_bind, ends_set, ends_pure]
    exact .inl ⟨_, rfl, trivial⟩
  · simp only [if_neg halign, hf, Option.isSome_none, Bool.false_eq_true, if_false]
    cases k.memory.userRead32 p.space address with
    | error e =>
      simp only [ends_bind, ends_set, ends_pure]
      exact .inl ⟨_, rfl, trivial⟩
    | ok word =>
      by_cases hword : word ≠ expected
      · simp only [if_pos hword, ends_bind, ends_set, ends_pure]
        exact .inl ⟨_, rfl, trivial⟩
      · simp only [if_neg hword, ends_bind, ends_set, ends_pure]
        exact .inr ⟨trivial, (Deed.waitFutex hp run address).does, rfl⟩

/-- The futex call does not stop, and is one deed. -/
theorem serveFutex_ends (h : k.board.Sound) :
    Ends (serveFutex pid args) k fun a k' => Serves pid .futex args a k k' := by
  have hop : ∀ o, Syscall.futex.futexOp pid args o = args.futexOp pid o := fun _ => rfl
  rw [serveFutex, if_neg (by simp [futexEnabled])]
  by_cases h₀ : args.a1 = 0
  · rw [if_pos h₀, ends_bind]
    refine (futexWait_ends hr h _ _).mono fun a k' hcases => ?_
    obtain ⟨e, rfl, rfl⟩ | ⟨rfl, hd⟩ := hcases
    · refine ends_pure.2 (.refl ?_ hr)
      simp [hop, SyscallArgs.futexOp, h₀, SyscallOutcome.ofAnswer]
    · have hwait : Syscall.futex.futexOp pid args (.ofAnswer (.ok .blocked)) =
          .wait pid args.a0 := by
        simp [hop, SyscallArgs.futexOp, h₀, SyscallOutcome.ofAnswer]
      refine ends_pure.2 ⟨hwait ▸ hd, fun _ _ hwake => ?_, nofun, nofun⟩
      rw [hwait] at hwake
      cases hwake
  by_cases h₁ : args.a1 = 1
  · rw [if_neg h₀, if_pos h₁, ends_bind]
    refine (futexWake_ends h _ _).mono fun count k' ⟨hc, hcount, hw⟩ => ends_pure.2 ?_
    have hwake : ∀ o, Syscall.futex.futexOp pid args o = .wake args.a0 args.a2.toNat := by
      intro o
      rw [hop, SyscallArgs.futexOp, if_neg h₀, if_pos h₁]
    refine ⟨⟨?_, hc⟩, fun address most hwake' => ?_, fun _ _ => ?_, nofun⟩
    · rw [hwake]
      exact (Deed.wakes _ _ hw).does
    · rw [hwake] at hwake'
      cases hwake'
      rw [hcount]
    · obtain ⟨p, hp, rfl, run⟩ := hr
      exact ⟨p, hw.at?_of_ne hp (by simp [run]), rfl, run⟩
  · rw [if_neg h₀, if_neg h₁]
    refine ends_pure.2 (.refl ?_ hr)
    rw [hop, SyscallArgs.futexOp, if_neg h₀, if_neg h₁]

end

/-! ## Calls on messages -/

/-- A call of the process `pid` came to its outcome. Nothing changed if it was refused. -/
structure ComesTo (pid : Pid) (call : Syscall) (args : SyscallArgs)
    (answer : Except Errno SyscallOutcome) (k k' : Kernel) : Prop where
  clock : k'.clock = k.clock
  outcome : Outcome k.clock.now pid call args k.memory k'.memory answer k.board k'.board
  refused : ∀ e, answer = .error e → k' = k

/-- A call on messages that is refused leaves the kernel. -/
theorem ComesTo.of_refused {call : Syscall} {args : SyscallArgs} {e : Errno}
    (hc : call.sends = true ∨ call.receives = true) : ComesTo pid call args (.error e) k k :=
  ⟨rfl, .refused hc, fun _ _ => rfl⟩

section
variable (hr : k.board.Runs pid) (args : SyscallArgs)
include hr

/-- A send that does not wait does not stop, and comes to an outcome. -/
theorem serveTrySend_ends (h : k.board.Sound) :
    Ends (serveTrySend pid args) k fun a k' => ComesTo pid .trySend args a k k' := by
  obtain ⟨p, hp, rfl, run⟩ := hr
  rw [serveTrySend]
  cases ht : p.pid.resolve args.a0 with
  | error e => exact ends_pure.2 (.of_refused (.inl rfl))
  | ok target =>
    obtain ⟨a, w', hsend, hcases⟩ :=
      Population.trySend_ends (w := k.toPopulation) h hp run rfl target (.ofArgs args)
    rw [ends_bind, ends_ofPopulation]
    refine ⟨a, w', hsend, ?_⟩
    obtain ⟨e, rfl, rfl⟩ | ⟨rfl, hpass⟩ := hcases
    · exact ends_pure.2 (.of_refused (.inl rfl))
    · exact ends_pure.2 ⟨rfl, .sent rfl ht hpass, nofun⟩

/-- A send that may wait does not stop, and comes to an outcome. -/
theorem serveSendTimeout_ends (h : k.board.Sound) :
    Ends (serveSendTimeout pid args) k fun a k' => ComesTo pid .sendTimeout args a k k' := by
  obtain ⟨p, hp, rfl, run⟩ := hr
  rw [serveSendTimeout]
  cases ht : p.pid.resolve args.a0 with
  | error e => exact ends_pure.2 (.of_refused (.inl rfl))
  | ok target =>
    obtain ⟨a, w', hsend, hcases⟩ := Population.sendTimeout_ends (w := k.toPopulation) h hp run rfl
      target (.ofArgs args) args.a5 k.clock.now
    rw [ends_bind, ends_get, ends_bind, ends_ofPopulation]
    refine ⟨a, w', hsend, ends_pure.2 ?_⟩
    obtain ⟨e, rfl, rfl⟩ | ⟨rfl, hpass⟩ | ⟨rfl, hask⟩ := hcases
    · exact .of_refused (.inl rfl)
    · exact ⟨rfl, .sent rfl ht hpass, nofun⟩
    · exact ⟨rfl, .asksToSend rfl ht hask, nofun⟩

end

/-- A receive is refused exactly if its arguments are not valid; otherwise it gets a message at once
or blocks its caller. -/
theorem serveReceive_ends (h : k.board.Sound) (hp : k.board.procs.at? p.pid.slot = some p)
    (run : p.status = .running) (args : SyscallArgs) (timeout : Option Millis) :
    Ends (serveReceive p.pid args timeout) k fun a k' => k'.clock = k.clock ∧
      ((∃ e, a = .error e ∧ k' = k ∧
          ¬ p.MayReceive k.memory args.a0 args.a1 timeout) ∨
        (∃ sender value, a = .ok (.returned value) ∧
          Pass sender p.pid value k.board k'.board ∧
          p.MayReceive k.memory args.a0 args.a1 timeout) ∨
        (a = .ok .blocked ∧ Ask k.clock.now p.pid none k.board k'.board ∧
          p.MayReceive k.memory args.a0 args.a1 timeout)) := by
  obtain ⟨a, w', hrcv, hcases⟩ := Population.receive_ends (w := k.toPopulation) h hp run rfl
    args.a0 args.a1 timeout k.clock.now
  rw [serveReceive, ends_bind, ends_get, ends_bind, ends_ofPopulation]
  refine ⟨a, w', hrcv, ends_pure.2 ⟨rfl, ?_⟩⟩
  obtain ⟨e, rfl, rfl, hv⟩ | ⟨sender, value, rfl, hpass, hv⟩ | ⟨rfl, hask, hv⟩ := hcases
  · exact .inl ⟨e, rfl, rfl, hv⟩
  · exact .inr (.inl ⟨sender, value, rfl, hpass, hv⟩)
  · exact .inr (.inr ⟨rfl, hask, hv⟩)

/-- A receive does not stop, and comes to an outcome. -/
theorem serveReceive_comesTo (h : k.board.Sound) (hr : k.board.Runs pid) (args : SyscallArgs)
    (timeout : Option Millis) {call : Syscall} (hc : call.receives = true) :
    Ends (serveReceive pid args timeout) k fun a k' => ComesTo pid call args a k k' := by
  obtain ⟨p, hp, rfl, run⟩ := hr
  refine (serveReceive_ends h hp run args timeout).mono fun a k' ⟨hclock, hcases⟩ => ?_
  obtain ⟨e, rfl, rfl, -⟩ | ⟨sender, value, rfl, hpass, -⟩ | ⟨rfl, hask, -⟩ := hcases
  · exact .of_refused (.inr hc)
  · exact ⟨hclock, .received hc hpass, nofun⟩
  · exact ⟨hclock, .asksToReceive hc hask, nofun⟩

/-! ## All calls -/

/-- Serving a call of a running process does not stop, and comes to an outcome of the call. -/
theorem serve_ends (h : k.board.Sound) (hr : k.board.Runs pid) (args : SyscallArgs)
    (call : Syscall) :
    Ends (serve pid args call) k fun a k' => ComesTo pid call args a k k' ∧
      ∀ value, returnWord a = some value → k'.board.Runs pid := by
  have ordinary : ∀ {x : Served}, Ends x k (fun a k' => Serves pid call args a k k') →
      call.sends = false → call.receives = false →
      Ends x k fun a k' => ComesTo pid call args a k k' ∧
        ∀ value, returnWord a = some value → k'.board.Runs pid :=
    fun hx hs hc => hx.mono fun _ _ hm =>
      ⟨⟨hm.did.clock, .deed hs hc hm.did.does hm.count, hm.refused⟩, hm.runs⟩
  have message : ∀ {x : Served}, Ends x k (fun a k' => ComesTo pid call args a k k') →
      call.sends = true ∨ call.receives = true →
      Ends x k fun a k' => ComesTo pid call args a k k' ∧
        ∀ value, returnWord a = some value → k'.board.Runs pid :=
    fun hx hc => hx.mono fun _ _ hm => ⟨hm, fun _ => hm.outcome.runs hc hr⟩
  cases call with
  | futex => exact ordinary (serveFutex_ends hr args h) rfl rfl
  | setRobustList => exact ordinary (serveSetRobustList_ends hr args) rfl rfl
  | yield => exact ordinary (serveYield_ends hr args) rfl rfl
  | signalAction => exact ordinary (serveSignalAction_ends hr args) rfl rfl
  | signalWait => exact ordinary (serveSignalWait_ends hr args) rfl rfl
  | signalSend => exact ordinary (serveSignalSend_ends hr args h) rfl rfl
  | signalReturn => exact ordinary (serveSignalReturn_ends hr args h) rfl rfl
  | signalEntry => exact ordinary (serveSignalEntry_ends hr args) rfl rfl
  | trySend => exact message (serveTrySend_ends hr args h) (.inl rfl)
  | sendTimeout => exact message (serveSendTimeout_ends hr args h) (.inl rfl)
  | receive => exact message (serveReceive_comesTo h hr args none rfl) (.inr rfl)
  | receiveTimeout => exact message (serveReceive_comesTo h hr args (some args.a2) rfl) (.inr rfl)

/-- The system call that the registers of a process ask for is served with an answer. -/
def Answers (k : Kernel) (pid : Pid) (call : Syscall) (args : SyscallArgs)
    (answer : Except Errno SyscallOutcome) (k' : Kernel) : Prop :=
  ∃ p, k.procs.get? pid = some p ∧ Syscall.ofNumber? p.frame.callNumber.toNat = some call ∧
    p.frame.callArgs = args ∧
    serve pid args call (k.noted (.call pid p.frame.callNumber args.toArray.toList)) = .ok answer k'

/-- The registers of a process ask for a system call by the number of none. -/
def AsksForNone (k : Kernel) (pid : Pid) : Prop :=
  ∃ p, k.procs.get? pid = some p ∧ Syscall.ofNumber? p.frame.callNumber.toNat = none

/-- How a system call is left: a returned word is put into the registers of the caller. -/
inductive Returns (pid : Pid) (answer : Except Errno SyscallOutcome) :
    SyscallOutcome → Board → Board → Prop where
  | word {b : Board} {p : Process} {value : UInt64} (hv : returnWord answer = some value)
      (hp : b.procs.at? p.pid.slot = some p) (hpid : p.pid = pid) (run : p.status = .running) :
      Returns pid answer (.returned value) b
        (b.put { p with frame := p.frame.setReturn value })
  | other {b : Board} {outcome : SyscallOutcome} (ha : answer = .ok outcome)
      (hv : returnWord answer = none) : Returns pid answer outcome b b

section
variable {a : Except Errno SyscallOutcome} {o : SyscallOutcome} {b b' : Board}

/-- A returned word changes the registers of the caller and nothing else. -/
theorem Returns.of_some (m : Returns pid a o b b') {value : UInt64}
    (hv : returnWord a = some value) :
    o = .returned value ∧ ∃ p, b.procs.at? pid.slot = some p ∧ p.pid = pid ∧
      p.status = .running ∧
      b'.procs.at? pid.slot = some { p with frame := p.frame.setReturn value } ∧
      ∀ i, pid.slot ≠ i → b'.procs.at? i = b.procs.at? i := by
  cases m with
  | @word _ p _ hv' hp hpid run =>
    cases hv'.symm.trans hv
    subst hpid
    exact ⟨rfl, p, hp, rfl, run, ProcessTable.at?_put_self,
      fun i hi => ProcessTable.at?_put_of_ne hi⟩
  | other _ hv' => cases hv'.symm.trans hv

/-- A call that returns no word has its answer as its outcome, and no register is set. -/
theorem Returns.of_none (m : Returns pid a o b b') (hv : returnWord a = none) :
    a = .ok o ∧ b' = b := by
  cases m with
  | word hv' _ _ _ => cases hv'.symm.trans hv
  | other ha _ => exact ⟨ha, rfl⟩

end

/-- The outcome with which a call is left is that of its answer. -/
theorem Returns.outcome {a : Except Errno SyscallOutcome} {o : SyscallOutcome} {b b' : Board}
    (m : Returns pid a o b b') : o = .ofAnswer a := by
  cases m with
  | word hv _ _ _ =>
    cases a with
    | error e =>
      cases hv
      rfl
    | ok o =>
      cases o with
      | returned value =>
        cases hv
        rfl
      | blocked | yielded | restored | exited => cases hv
  | other ha _ =>
    rw [ha]
    rfl

/-- A word is returned to a running caller. -/
theorem return_ends {a : Except Errno SyscallOutcome} {value : UInt64}
    (hv : returnWord a = some value) (hr : k.board.Runs pid) :
    Ends (do setReturn pid value; return SyscallOutcome.returned value) k fun o k' =>
      k'.clock = k.clock ∧ k'.memory = k.memory ∧ Returns pid a o k.board k'.board := by
  obtain ⟨p, hp, rfl, run⟩ := hr
  rw [ends_bind]
  refine (setReturn_ends hp value).mono fun _ k' hk' => ends_pure.2 ?_
  rw [hk']
  exact ⟨rfl, rfl, .word hv hp rfl run⟩

/-- A system call of a running process does not stop. Its number is that of no call, or the call is
served, which comes to an outcome; then the result is put into the registers of the caller. -/
theorem syscall_ends (h : k.board.Sound) (hr : k.board.Runs pid) :
    Ends (syscall pid) k fun o k' => k'.clock = k.clock ∧
      (k.AsksForNone pid ∧ Returns pid (.error .functionNotImplemented) o k.board k'.board ∨
        ∃ call args a k₁, k.Answers pid call args a k₁ ∧
          Outcome k.clock.now pid call args k.memory k₁.memory a k.board k₁.board ∧
          k'.memory = k₁.memory ∧ Returns pid a o k₁.board k'.board) := by
  obtain ⟨p, hp, rfl, run⟩ := hr
  have hget : k.procs.get? p.pid = some p := ProcessTable.get?_pid hp
  rw [syscall, ends_bind, ends_get, hget]
  dsimp only
  rw [ends_bind, ends_note]
  cases hc : Syscall.ofNumber? p.frame.callNumber.toNat with
  | none =>
    dsimp only
    rw [ends_bind, ends_pure]
    have hr₁ : (k.noted (.call p.pid p.frame.callNumber p.frame.callArgs.toArray.toList)).board.Runs
        p.pid := ⟨p, hp, rfl, run⟩
    exact (return_ends rfl hr₁).mono fun o k' ⟨hclock, _, ho⟩ =>
      ⟨hclock, .inl ⟨⟨p, hget, hc⟩, ho⟩⟩
  | some call =>
    dsimp only
    rw [ends_bind]
    obtain ⟨a, k₁, hserve, ⟨hclock, ho, -⟩, hruns⟩ :=
      serve_ends (k := k.noted (.call p.pid p.frame.callNumber p.frame.callArgs.toArray.toList)) h
        ⟨p, hp, rfl, run⟩ p.frame.callArgs call
    have hans : k.Answers p.pid call p.frame.callArgs a k₁ := ⟨p, hget, hc, rfl, hserve⟩
    have left : ∀ (o : SyscallOutcome) (k' : Kernel), k'.clock = k₁.clock ∧
        k'.memory = k₁.memory ∧ Returns p.pid a o k₁.board k'.board → k'.clock = k.clock ∧
          (k.AsksForNone p.pid ∧
              Returns p.pid (.error .functionNotImplemented) o k.board k'.board ∨
            ∃ call args a k₁, k.Answers p.pid call args a k₁ ∧
              Outcome k.clock.now p.pid call args k.memory k₁.memory a k.board k₁.board ∧
              k'.memory = k₁.memory ∧ Returns p.pid a o k₁.board k'.board) :=
      fun o k' ⟨hclock', hm, ho'⟩ =>
        ⟨hclock'.trans hclock, .inr ⟨call, _, a, k₁, hans, ho, hm, ho'⟩⟩
    refine ⟨a, k₁, hserve, ?_⟩
    cases a with
    | error e => exact (return_ends rfl (hruns _ rfl)).mono left
    | ok o =>
      cases o with
      | returned value => exact (return_ends rfl (hruns _ rfl)).mono left
      | blocked | yielded | restored | exited =>
        exact ends_pure.2 (left _ _ ⟨rfl, rfl, .other rfl rfl⟩)

end Kernel

end SyncKernel
