import SyncKernel.Proofs.Calls
import SyncKernel.Proofs.KillSignal

/-!
# Pending signals in one moment

What a moment of a run may do to the signals of a process is little. One signal gets behind the
pending ones if it was sent in this moment and was not pending, or one is taken out if the process
goes back to user mode or calls to wait for signals (`Moment.QueueStep`). A wait for signals begins
in such a call, and it ends with the mask from before it or with the process (`Moment.WaitStep`).
The action for a signal changes only if the process calls to set it or its handler is called
(`Moment.ActionStep`). That nothing else happens is said event by event (`Event.signalStep`): for a
system call it is read off from what the call does to its caller and what the others hear of it, and
for the other events from what they do to all records at once.
-/

namespace SyncKernel

open Board Step

/-! ## Steps -/

namespace Moment

/-- In this moment the process `s` may take a pending signal: it goes back to user mode, or it calls
to wait for signals. -/
def Consumes (m : Moment) (s : Pid) : Prop :=
  m.event = .trapReturn s ∨
    m.event = .syscall s ∧ ∃ args, m.before.asked? s = some (.signalWait, args)

/-- What a moment does to the pending signals of a process, `p` being its record before and `p'` the
one after it. -/
inductive QueueStep (m : Moment) (p p' : Process) : Prop where
  /-- Nothing. -/
  | same (h : p'.signal.queue = p.signal.queue)
  /-- A signal is sent that is not pending and not waited for, and gets behind the others. The kill
  signal ends a wait. -/
  | accepted {n : Nat} {value : UInt64} (hr : m.request? = some ⟨p.pid, n, value⟩)
      (hn : isSignal n = true) (new : p.signal.queue.contains n = false)
      (hq : p.signal.queue.push ⟨n, value⟩ = .ok p'.signal.queue)
      (before : ∀ w, p.signal.wait = some w → n = killSignal ∨ w.accept.contains n = false)
      (after : ∀ w, p'.signal.wait = some w → n ≠ killSignal ∧ w.accept.contains n = false)
  /-- A signal is taken. -/
  | consumed {test : Nat → Bool} {e : PendingSignal} (hc : m.Consumes p.pid)
      (ht : p.signal.queue.takeFirst test = some (e, p'.signal.queue))

/-- What a moment does to the wait of a process for signals. -/
inductive WaitStep (m : Moment) (p p' : Process) : Prop where
  /-- Nothing, and the mask stays while the process waits. -/
  | same (h : p'.signal.wait = p.signal.wait)
      (mask : p.signal.wait ≠ none → p'.signal.mask = p.signal.mask)
  /-- The process calls to wait for signals. None of those that it accepts is pending. -/
  | begins {args : SyscallArgs} (he : m.event = .syscall p.pid)
      (asked : m.before.asked? p.pid = some (.signalWait, args)) (awake : p.signal.wait = none)
      (wait : p'.signal.wait = some ⟨args.accepted, p.signal.mask, args.a1⟩)
      (mask : p'.signal.mask = p.signal.mask.difference args.accepted)
      (some : args.accepted.isEmpty = false)
      (none : p'.signal.queue.takeFirst args.accepted.contains = .none)
      (hk : p'.signal.queue.contains killSignal = false)
  /-- The wait is over, and the mask is the one from before it. -/
  | ends {w : SignalWait} (hw : p.signal.wait = some w) (ended : p'.signal.wait = .none)
      (mask : p'.signal.mask = w.saved)
  /-- The process is destroyed. -/
  | dies (ended : p'.signal.wait = .none) (dying : p'.status = .dying)

/-- In this moment the process `s` calls to set the action for signal `n`. -/
def Sets (m : Moment) (s : Pid) (n : Nat) : Prop :=
  m.event = .syscall s ∧ ∃ args, m.before.asked? s = some (.signalAction, args) ∧
    args.a0.toUInt32.toNat = n ∧ args.a1 ≠ 0

/-- In this moment the process `s` goes back to user mode and its handler for signal `n` is called.
-/
def Handles (m : Moment) (s : Pid) (n : Nat) : Prop :=
  m.event = .trapReturn s ∧ ∃ p f p' mem, m.before.procs.get? s = some p ∧
    p.deliver m.before.memory = .ok (.handled n f, p', mem)

/-- What a moment does to the actions of a process: each stays, unless the process sets it or its
handler is called. -/
def ActionStep (m : Moment) (p p' : Process) : Prop :=
  ∀ n, m.Sets p.pid n ∨ m.Handles p.pid n ∨ p'.signal.action? n = p.signal.action? n

/-- What a moment does to the signals of a process. -/
structure SignalStep (m : Moment) (p p' : Process) : Prop where
  queue : m.QueueStep p p'
  wait : m.WaitStep p p'
  actions : m.ActionStep p p'

end Moment

/-! ## One record -/

theorem SignalState.action?_congr {s s' : SignalState} (h : s'.actions = s.actions) (n : Nat) :
    s'.action? n = s.action? n := by
  unfold action?
  rw [h]

namespace Process

variable {p p' : Process} {m m' : Memory}

/-- An exchange of actions changes none, or sets the one that it is about. -/
theorem exchangeAction_changes {n : Nat} {new old : UInt64}
    (h : p.exchangeAction m n new old = (.ok (), p', m')) :
    p' = p ∨ new ≠ 0 ∧ ∃ a, p' = { p with signal := p.signal.setAction n a } := by
  obtain ⟨_, he, -⟩ | ⟨-, wanted, _, hx⟩ := exchangeAction_cases h
  · cases he
  obtain ⟨-, -, rfl⟩ := changeAction_eq_ok_iff.1 hx.changed
  cases wanted with
  | none => exact .inl rfl
  | some a =>
    have hnew : new ≠ 0 := fun h0 => nomatch hx.unread h0
    exact .inr ⟨hnew, a, rfl⟩

/-- Calling a handler changes no action but that for the signal. -/
theorem enterHandler_action? {entry handler f : UInt64} {e : PendingSignal} {a : Action} {n : Nat}
    (h : p.enterHandler m entry handler e a = .ok (p', m', f)) (hn : e.number ≠ n) :
    p'.signal.action? n = p.signal.action? n := by
  obtain ⟨_, _, rfl, -, rfl | rfl⟩ := enterHandler_eq_ok h
  · rfl
  · exact SignalState.action?_setAction_of_ne .standard hn

/-- A signal is put behind the pending ones only if it is not pending. -/
theorem contains_eq_false_of_queued {n : Nat} {value : UInt64}
    (h : p.sendSignal m n value = .ok (.ok .queued, p', m')) :
    p.signal.queue.contains n = false := by
  unfold sendSignal at h
  split at h
  · cases h
  split at h
  · dsimp only at h
    split at h
    · cases h
    · obtain ⟨_, -, h⟩ := Except.bind_eq_ok.1 h
      cases h
  · split at h
    · cases h
    · next hc => exact Bool.eq_false_iff.2 hc

end Process

namespace Moment

variable {m : Moment} {p p' p₁ : Process}

/-- All actions stay. -/
theorem ActionStep.of_actions (h : p'.signal.actions = p.signal.actions) : m.ActionStep p p' :=
  fun n => .inr (.inr (SignalState.action?_congr h n))

namespace SignalStep

/-- The signal state stays. -/
theorem of_signal (h : p'.signal = p.signal) : m.SignalStep p p' :=
  ⟨.same (by rw [h]), .same (by rw [h]) fun _ => by rw [h], .of_actions (by rw [h])⟩

/-- Only the signals and the status count. -/
theorem congr (h : m.SignalStep p p₁) (hs : p'.signal = p₁.signal)
    (hstatus : p'.status = p₁.status) : m.SignalStep p p' := by
  obtain ⟨hq, hw, ha⟩ := h
  refine ⟨?_, ?_, fun n => hs ▸ ha n⟩
  · cases hq with
    | same h => exact .same (hs ▸ h)
    | accepted hr hn new hq before after => exact .accepted hr hn new (hs ▸ hq) before (hs ▸ after)
    | consumed hc ht => exact .consumed hc (hs ▸ ht)
  · cases hw with
    | same h mask => exact .same (hs ▸ h) (hs ▸ mask)
    | begins he asked awake wait mask some none hk =>
      exact .begins he asked awake (hs ▸ wait) (hs ▸ mask) some (hs ▸ none) (hs ▸ hk)
    | ends hw ended mask => exact .ends hw (hs ▸ ended) (hs ▸ mask)
    | dies ended dying => exact .dies (hs ▸ ended) (hstatus ▸ dying)

/-- A process that does not wait for signals, before or after, may change its mask. -/
theorem of_awake (hq : m.QueueStep p p') (hp : p.signal.wait = none) (hp' : p'.signal.wait = none)
    (ha : m.ActionStep p p') : m.SignalStep p p' :=
  ⟨hq, .same (hp'.trans hp.symm) (absurd hp), ha⟩

/-- A process is sent a signal. -/
theorem of_sendSignal {mem mem' : Memory} {n : Nat} {value : UInt64} {sent : SyncKernel.Sent}
    (h : p.sendSignal mem n value = .ok (.ok sent, p', mem'))
    (hr : m.request? = some ⟨p.pid, n, value⟩) : m.SignalStep p p' := by
  cases Process.signalled_of_sendSignal h with
  | merged => exact of_signal rfl
  | queued hn hq hw =>
    have new := Process.contains_eq_false_of_queued h
    exact ⟨.accepted hr hn new hq (fun w hw' => .inr (hw w hw').2) hw, .same rfl fun _ => rfl,
      .of_actions rfl⟩
  | interrupted hn hq hw =>
    have new := Process.contains_eq_false_of_queued h
    exact ⟨.accepted hr (hn ▸ rfl) new hq (fun _ _ => .inl hn) nofun, .ends hw rfl rfl,
      .of_actions rfl⟩
  | handed hw | lost hw => exact ⟨.same rfl, .ends hw rfl rfl, .of_actions rfl⟩

/-- A process hears of a signal that is sent. -/
theorem of_hears {target : Pid} {n : Nat} {value : UInt64} (h : p.Hears target n value p')
    (hr : m.request? = some ⟨target, n, value⟩) : m.SignalStep p p' := by
  cases h with
  | spared h => exact of_signal h.signal
  | signalled ht _ _ h => exact of_sendSignal h (ht ▸ hr)
  | lost _ hw => exact ⟨.same rfl, .ends hw rfl rfl, .of_actions rfl⟩

/-- A running process calls. -/
theorem of_called {call : Syscall} {args : SyscallArgs} {a : Except Errno SyscallOutcome}
    (h : p.Called call args a p') (he : m.event = .syscall p.pid)
    (asked : m.before.asked? p.pid = some (call, args)) (awake : p.signal.wait = none) :
    m.SignalStep p p' := by
  cases h with
  | goesOn _ _ still | blocks _ _ _ still =>
    exact ⟨.same still.queue, .same still.wait fun _ => still.mask, .of_actions still.actions⟩
  | exchanged hc h =>
    subst hc
    obtain ⟨-, queue, wait, mask⟩ := Process.exchangeAction_goesOn h
    refine ⟨.same queue, .same wait fun _ => mask, fun n => ?_⟩
    obtain rfl | ⟨set, a, hp'⟩ := Process.exchangeAction_changes h
    · exact .inr (.inr rfl)
    · by_cases hn : args.a0.toUInt32.toNat = n
      · exact .inl ⟨he, args, asked, hn, set⟩
      · subst hp'
        exact .inr (.inr (SignalState.action?_setAction_of_ne a hn))
  | took hc ht =>
    subst hc
    exact of_awake (.consumed (.inr ⟨he, args, asked⟩) ht) awake awake (.of_actions rfl)
  | signalled hc ht h =>
    subst hc
    refine of_sendSignal h ?_
    rw [request?, he]
    simp [asked, Syscall.signal?, SyscallArgs.signal?, ht]
  | waits hc some none hk =>
    subst hc
    exact ⟨.same rfl, .begins he asked awake rfl rfl some none hk, .of_actions rfl⟩
  | yields => exact of_signal rfl
  | leaves => exact of_awake (.same rfl) awake awake (.of_actions rfl)
  | dies => exact of_awake (.same rfl) awake rfl (.of_actions rfl)

/-- Another process calls. -/
theorem of_overhears {pid : Pid} {call : Syscall} {args : SyscallArgs}
    (h : p.Overhears pid call args p') (he : m.event = .syscall pid)
    (asked : m.before.asked? pid = some (call, args)) : m.SignalStep p p' := by
  cases h with
  | spared h => exact of_signal h.signal
  | hears hc ht h =>
    subst hc
    refine of_hears h ?_
    rw [request?, he]
    simp [asked, Syscall.signal?, SyscallArgs.signal?, ht]

/-- A running process goes back to user mode, or dies of the signal that is delivered. -/
theorem of_delivers {mem mem' : Memory} {d : Delivery} {q : Process}
    (h : Process.Delivers p mem d q mem') (hc : m.Consumes p.pid)
    (handles : ∀ n f, d = .handled n f → m.Handles p.pid n) (awake : p.signal.wait = none)
    (hp' : p' = q ∨ p' = { q.bury with futex := none }) : m.SignalStep p p' := by
  have hwait : q.signal.wait = none := h.sameStanding.wait.trans awake
  have hqueue : ∀ {p' : Process}, p'.signal.queue = q.signal.queue → m.QueueStep p p' := by
    intro p' hq
    cases h with
    | nothing => exact .same hq
    | @taken _ _ queue _ ht =>
      obtain rfl : p'.signal.queue = queue := hq
      exact .consumed hc ht
    | @called _ _ queue _ _ _ _ _ _ _ ht _ _ _ hcall =>
      obtain rfl : p'.signal.queue = queue := hq.trans (Process.enterHandler_queue hcall)
      exact .consumed hc ht
  have hactions : ∀ n, m.Handles p.pid n ∨ q.signal.action? n = p.signal.action? n := by
    intro n
    cases h with
    | nothing | taken => exact .inr rfl
    | @called _ e _ _ _ f _ _ _ _ _ _ _ _ hcall =>
      by_cases hn : e.number = n
      · exact .inl (handles n f (hn ▸ rfl))
      · have hq := Process.enterHandler_action? hcall hn
        exact .inr hq
  rcases hp' with rfl | rfl
  · exact of_awake (hqueue rfl) awake hwait fun n => .inr (hactions n)
  · exact of_awake (hqueue rfl) awake rfl fun n => .inr (hactions n)

end SignalStep

end Moment

/-! ## Events -/

/-- The signals of all processes are left alone by a change of the table that leaves them alone. -/
theorem ProcessTable.Each.signalStep {t t' : ProcessTable} {m : Moment}
    (h : t.Each Process.SameSignals t') {i : Fin slotCount} {p p' : Process} (hp : t.at? i = some p)
    (hp' : t'.at? i = some p') : m.SignalStep p p' := by
  obtain ⟨q, hq, hs⟩ := h.exists_after hp
  cases hq.symm.trans hp'
  exact .of_signal hs.signal

/-- How a system call is left does not change signals. -/
theorem Kernel.Returns.exists_before {pid : Pid} {a : Except Errno SyscallOutcome}
    {o : SyscallOutcome} {b b' : Board} (m : Returns pid a o b b') {i : Fin slotCount}
    {p' : Process} (hp' : b'.procs.at? i = some p') :
    ∃ p, b.procs.at? i = some p ∧ p'.signal = p.signal ∧ p'.status = p.status := by
  cases m with
  | word _ hp =>
    rcases ProcessTable.at?_put_cases hp' with ⟨rfl, rfl⟩ | ⟨-, hp'⟩
    · exact ⟨_, hp, rfl, rfl⟩
    · exact ⟨p', hp', rfl, rfl⟩
  | other => exact ⟨p', hp', rfl, rfl⟩

namespace Kernel

variable {k k' : Kernel} {p : Process}

/-- A system call of a running process does to the signals of all processes what it may. -/
theorem syscall_signalStep (h : k.board.Sound) (hp : k.procs.at? p.pid.slot = some p)
    (run : p.status = .running) :
    Ends (syscall p.pid) k fun o k' => ∀ i q q', k.procs.at? i = some q → k'.procs.at? i = some q' →
      (⟨k, .syscall p.pid, .served o, k'⟩ : Moment).SignalStep q q' := by
  refine (syscall_ends h ⟨p, hp, rfl, run⟩).mono fun o k' ⟨_, hcases⟩ i q q' hq hq' => ?_
  obtain ⟨-, ret⟩ | ⟨call, args, a, k₁, ans, -, -, ret⟩ := hcases
  · obtain ⟨r, hr, hs, -⟩ := ret.exists_before hq'
    cases hq.symm.trans hr
    exact .of_signal hs
  have asked : k.asked? p.pid = some (call, args) := ans.asked?
  obtain ⟨r, hr, hs, hstatus⟩ := ret.exists_before hq'
  obtain ⟨p₀, hp₀, -, rfl, hserve⟩ := ans
  cases (ProcessTable.get?_pid hp).symm.trans hp₀
  obtain ⟨p₁, called, around⟩ := (serve_treats (k := k.noted (.call ..)) h hp run call).of_eq hserve
  refine .congr ?_ hs hstatus
  obtain ⟨rfl, rfl⟩ | hover := around.at?_cases hp hq hr
  · exact .of_called called rfl asked ((h.settled hp).wait_eq_none (by simp [run]))
  · exact .of_overhears hover rfl asked

/-- Sweeping leaves the signals of all processes alone. -/
theorem sweepNow_each (placed : k.procs.Placed) :
    Leaves sweepNow k fun _ k' => k.procs.Each Process.SameSignals k'.procs := by
  rw [sweepNow, leaves_bind, leaves_get, leaves_ofPopulation]
  exact fun _ _ h => (Population.sweepSlots_each _ placed h).mono fun haside => haside.toSameSignals

/-- A return to user mode delivers a signal to the process that returns, which may die of it, and
leaves the others alone. -/
theorem trapReturn_around (h : k.board.Sound) (hp : k.board.procs.at? p.pid.slot = some p)
    (run : p.status = .running) :
    Ends (trapReturn p.pid) k fun _ k' => ∃ d q m p', p.deliver k.memory = .ok (d, q, m) ∧
      (p' = q ∨ p' = { q.bury with futex := none }) ∧
      k.procs.Around p p' Process.Spared k'.procs := by
  refine (trapReturn_proceeds h hp run).mono fun _ k' ⟨d, q, k₁, hd, hb, _, hcases⟩ => ?_
  have hpid : q.pid = p.pid := (Process.deliver_delivers hd).sameStanding.pid
  have hprocs : k₁.procs = k.procs.put q := congrArg Board.procs hb
  cases hcases with
  | killed _ hk =>
    have around : k₁.procs.Around q _ Process.Spared k'.procs := hk.around rfl
    exact ⟨d, q, _, _, hd, .inr rfl, (hprocs ▸ around).of_put hpid⟩
  | resumes =>
    exact ⟨d, q, _, q, hd, .inl rfl, hprocs ▸ (ProcessTable.Around.refl hp).put hpid⟩

end Kernel

/-- What an event does to the signals of the processes that are there before and after it. -/
theorem Event.signalStep {k : Kernel} {e : Event} (h : k.board.Sound) (allowed : e.Allowed k) :
    Leaves e.perform k fun a k' => ∀ i p p', k.procs.at? i = some p → k'.procs.at? i = some p' →
      (⟨k, e, a, k'⟩ : Moment).SignalStep p p' := by
  have placed : k.procs.Placed := h.table.placed
  have each : ∀ {a : Answer} {k' : Kernel}, k.procs.Each Process.SameSignals k'.procs →
      ∀ i p p', k.procs.at? i = some p → k'.procs.at? i = some p' →
        (⟨k, e, a, k'⟩ : Moment).SignalStep p p' := fun hk _ _ _ => hk.signalStep
  have still : ∀ {a : Answer} {k' : Kernel}, k'.procs = k.procs →
      ∀ i p p', k.procs.at? i = some p → k'.procs.at? i = some p' →
        (⟨k, e, a, k'⟩ : Moment).SignalStep p p' := fun hk => each (hk ▸ .refl _)
  cases e with
  | spawn space frame =>
    refine leaves_map.2 ((Kernel.leaves_spawn k space frame).mono fun a k' hk => ?_)
    obtain ⟨_, -, rfl⟩ | ⟨pid, procs, -, ha, rfl⟩ := hk
    · exact still rfl
    obtain ⟨hfree, rfl⟩ := ProcessTable.alloc_ok ha
    intro i p p' hp hp'
    rcases ProcessTable.at?_put_cases hp' with ⟨rfl, -⟩ | ⟨-, hat⟩
    · cases hp.symm.trans hfree
    · cases hp.symm.trans hat
      exact .of_signal rfl
  | syscall pid =>
    obtain ⟨p, hp, rfl, run⟩ := Kernel.status_eq_running.1 allowed
    exact leaves_map.2 (Kernel.syscall_signalStep h hp run).leaves
  | schedule cpu =>
    refine leaves_map.2 fun d k' hstep => ?_
    obtain ⟨_, n, w, state, he, hchoose, -⟩ := Kernel.schedule_ok hstep
    have hw := Population.expireSlots_each _ placed he
    have hchosen := hchoose.each (hw.placed (fun h => h.pid) placed)
    exact each ((hw.mono fun h => h.toSameSignals).trans hchosen)
  | timerTick =>
    refine leaves_map.2 ?_
    rw [Kernel.timerTick, leaves_bind, leaves_get]
    split
    · exact leaves_pure.2 (still rfl)
    · rw [leaves_bind, leaves_set]
      exact (Kernel.sweepNow_each (k := { k with lastSweep := k.clock.now }) placed).mono
        fun _ _ => each
  | sweep => exact leaves_map.2 ((Kernel.sweepNow_each placed).mono fun _ _ => each)
  | advance | setClock | memory => exact leaves_map.2 (leaves_modify.2 (still rfl))
  | trapReturn pid =>
    obtain ⟨p, hp, rfl, run⟩ := Kernel.status_eq_running.1 allowed
    refine leaves_map.2 ((Kernel.trapReturn_around h hp run).leaves.mono fun r k' hk => ?_)
    obtain ⟨d, q, m, p', hd, hp', around⟩ := hk
    intro i p₀ p₁ hp₀ hp₁
    obtain ⟨rfl, rfl⟩ | hspared := around.at?_cases hp hp₀ hp₁
    · have awake : p₀.signal.wait = none := (h.settled hp).wait_eq_none (by simp [run])
      refine .of_delivers (Process.deliver_delivers hd) (.inl rfl) (fun n f hn => ?_) awake hp'
      exact ⟨rfl, p₀, f, q, m, ProcessTable.get?_pid hp, hn ▸ hd⟩
    · exact .of_signal hspared.signal
  | sendSignal target n value =>
    refine leaves_map.2 ((Kernel.sendSignal_hears h target n value).leaves.mono fun a k' hk => ?_)
    intro i p p' hp hp'
    obtain ⟨q, hq, hears⟩ := hk.exists_after hp
    cases hq.symm.trans hp'
    exact .of_hears hears rfl
  | futexWake address most =>
    refine leaves_map.2 ((Kernel.futexWake_ends h address most).leaves.mono fun n k' hk => ?_)
    exact each (hk.2.2.each.mono fun hspared => hspared.toSameSignals)
  | destroy pid =>
    refine leaves_map.2 ?_
    cases hl : k.procs.lookup pid with
    | error e =>
      rw [Kernel.destroy, leaves_bind, leaves_get, hl]
      exact leaves_pure.2 (still rfl)
    | ok p =>
      obtain ⟨hget, live⟩ := ProcessTable.lookup_eq_ok.1 hl
      obtain ⟨hp, rfl⟩ := ProcessTable.get?_eq_some.1 hget
      refine (Kernel.destroy_ends (put_self hp).symm h hp live (.inl rfl)).leaves.mono
        fun a k' hd i p₀ p₁ hp₀ hp₁ => ?_
      have around : k.procs.Around p _ Process.Spared k'.procs := hd.2.around rfl
      obtain ⟨rfl, rfl⟩ | hspared := around.at?_cases hp hp₀ hp₁
      · exact ⟨.same rfl, .dies rfl rfl, .of_actions rfl⟩
      · exact .of_signal hspared.signal
  | reclaim pid =>
    refine leaves_map.2 ((Kernel.leaves_reclaim k pid).mono fun a k' hk => ?_)
    obtain ⟨_, -, rfl⟩ | ⟨procs, rfl, hr, rfl⟩ := hk
    · exact still rfl
    obtain ⟨p, -, -, -, hat⟩ := ProcessTable.reclaim_ok hr
    intro i p₀ p₁ hp₀ hp₁
    have hi := hat i
    rw [show procs.at? i = some p₁ from hp₁] at hi
    split at hi
    · cases hi
    · cases hp₀.symm.trans hi.symm
      exact .of_signal rfl
  | registers pid frame =>
    obtain ⟨p, hget, run, hf⟩ := allowed
    obtain ⟨hp, rfl⟩ := ProcessTable.get?_eq_some.1 hget
    refine leaves_map.2 (leaves_modify.2 (each ?_))
    have hput : k.procs.update p.pid (fun p => { p with frame }) = k.procs.put { p with frame } :=
      ProcessTable.update_eq_put hget rfl
    have hsame : p.SameSignals { p with frame } := ⟨rfl, rfl, hf, id⟩
    exact hput ▸ (ProcessTable.Each.refl _).put hp hsame

end SyncKernel
