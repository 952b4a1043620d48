import SyncKernel.Proofs.SignalSteps

/-!
# Pending signals

In every kernel that a run leads to, the pending signals of a process are those that were accepted
for it and not taken since, in the order in which they were accepted, and no signal is pending
twice. While a process waits for signals none of those that would end its wait is pending, and its
mask is the one it called with, less the signals it waits for (`SignalState.Listens`).

In what order signals were accepted is a statement about the whole run. What began in some moment
and has been so ever since is a `Spell` of the process: a signal is pending since the moment in
which it was accepted (`AcceptedAt`), and a wait goes on since the moment of the call
(`WaitsSince`). A signal that is accepted gets behind those that were accepted before, so the
moments in `Chronicled` grow along the queue. The steps of `Moment.SignalStep` keep all of this, and
new processes have no signals (`Run.forall_of_signalStep`).
-/

namespace SyncKernel

/-! ## What a process that waits is like -/

namespace SignalQueue

variable {q q' : SignalQueue} {e : PendingSignal}

/-- Taking a signal leaves the others in their order. -/
theorem sublist_of_takeFirst {test : Nat → Bool} (h : q.takeFirst test = some (e, q')) :
    q'.entries.Sublist q.entries := by
  obtain ⟨l₁, l₂, hq, hq', -⟩ := takeFirst_eq_some h
  rw [hq, hq']
  exact (List.sublist_cons_self e l₂).append_left l₁

/-- A signal that is not pending has another number than those that are. -/
theorem number_ne {n : Nat} (h : q.contains n = false) (he : e ∈ q.entries) : e.number ≠ n :=
  fun hn => Bool.eq_false_iff.1 h (contains_eq_true.2 ⟨e, he, hn⟩)

end SignalQueue

/-- What the signals of a process are like while it waits for some. -/
structure SignalState.Listens (s : SignalState) (w : SignalWait) : Prop where
  /-- It waits for some signals. -/
  some : w.accept.isEmpty = false
  /-- The kill signal is not among them. -/
  kill : w.accept.contains killSignal = false
  /-- The kill signal is not pending. -/
  alive : s.queue.contains killSignal = false
  /-- None of the signals it waits for is pending. -/
  none : ∀ n, w.accept.contains n = true → s.queue.contains n = false
  /-- Its mask is the one from before the wait, less the signals it waits for. -/
  mask : s.mask = w.saved.difference w.accept

/-- The signals of a process are in order: none is pending twice, and if it waits for some it is as
it should be. -/
structure SignalState.Orderly (s : SignalState) : Prop where
  distinct : (s.queue.entries.map PendingSignal.number).Nodup
  listens : ∀ w, s.wait = some w → s.Listens w

namespace Moment

variable {m : Moment} {p p' : Process}

/-- A process that may take a signal does not send one in the same moment. -/
theorem Consumes.request?_eq_none {s : Pid} (h : m.Consumes s) : m.request? = none := by
  obtain he | ⟨he, args, asked⟩ := h
  · rw [request?, he]
    rfl
  · rw [request?, he]
    simp [asked, Syscall.signal?]

/-- A signal that would end the wait does not get into the queue as long as the process waits. -/
theorem QueueStep.contains_eq_false (h : m.QueueStep p p') {w : SignalWait} {n : Nat}
    (hw : p'.signal.wait = some w) (hn : n = killSignal ∨ w.accept.contains n = true)
    (hp : p.signal.queue.contains n = false) : p'.signal.queue.contains n = false := by
  refine Bool.eq_false_iff.2 fun hc => ?_
  obtain ⟨x, hx, rfl⟩ := SignalQueue.contains_eq_true.1 hc
  have absent : x ∉ p.signal.queue.entries := fun hmem => SignalQueue.number_ne hp hmem rfl
  cases h with
  | same h => exact absent (h ▸ hx)
  | accepted _ _ _ hq _ after =>
    obtain ⟨-, hq⟩ := SignalQueue.push_eq_ok.1 hq
    rw [hq] at hx
    rcases List.mem_append.1 hx with hx | hx
    · exact absent hx
    · obtain ⟨hkill, haccept⟩ := after w hw
      rw [List.mem_singleton.1 hx] at hn
      rcases hn with hn | hn
      · exact hkill hn
      · exact Bool.eq_false_iff.1 haccept hn
  | consumed _ ht => exact absent ((SignalQueue.mem_of_takeFirst ht).2 x hx)

/-- A signal that a process waits for does not get into the queue. -/
theorem QueueStep.of_request (h : m.QueueStep p p') {w : SignalWait} {n : Nat} {value : UInt64}
    (hw : p.signal.wait = some w) (kill : w.accept.contains killSignal = false)
    (hr : m.request? = some ⟨p.pid, n, value⟩) (hn : w.accept.contains n = true) :
    p'.signal.queue = p.signal.queue := by
  cases h with
  | same h => exact h
  | accepted hr' _ _ _ before =>
    cases hr.symm.trans hr'
    rcases before w hw with rfl | hnot
    · cases hn.symm.trans kill
    · cases hn.symm.trans hnot
  | consumed hc => cases hr.symm.trans hc.request?_eq_none

/-- A wait goes on, or it ends with the mask from before it or with the process. -/
theorem WaitStep.of_waits (h : m.WaitStep p p') {w : SignalWait} (hw : p.signal.wait = some w) :
    p'.signal.wait = some w ∧ p'.signal.mask = p.signal.mask ∨
      p'.signal.wait = none ∧ (p'.signal.mask = w.saved ∨ p'.status = .dying) := by
  cases h with
  | same h mask => exact .inl ⟨h.trans hw, mask (by simp [hw])⟩
  | begins _ _ awake => cases awake.symm.trans hw
  | ends hw' ended mask =>
    cases hw.symm.trans hw'
    exact .inr ⟨ended, .inl mask⟩
  | dies ended dying => exact .inr ⟨ended, .inr dying⟩

/-- No signal becomes pending twice. -/
theorem QueueStep.distinct (h : m.QueueStep p p')
    (hp : (p.signal.queue.entries.map PendingSignal.number).Nodup) :
    (p'.signal.queue.entries.map PendingSignal.number).Nodup := by
  cases h with
  | same h => rwa [h]
  | @accepted n value _ _ new hq =>
    obtain ⟨-, hq⟩ := SignalQueue.push_eq_ok.1 hq
    rw [hq, List.map_append, List.nodup_append]
    refine ⟨hp, List.nodup_singleton _, fun a ha b hb => ?_⟩
    obtain ⟨x, hx, rfl⟩ := List.mem_map.1 ha
    rw [List.mem_singleton.1 hb]
    exact SignalQueue.number_ne new hx
  | consumed _ ht => exact hp.sublist ((SignalQueue.sublist_of_takeFirst ht).map _)

/-- The signals of a process stay in order. -/
theorem SignalStep.orderly (h : m.SignalStep p p') (hp : p.signal.Orderly) : p'.signal.Orderly where
  distinct := h.queue.distinct hp.distinct
  listens w hw := by
    cases h.wait with
    | same hwait mask =>
      have hw₀ : p.signal.wait = some w := hwait ▸ hw
      have hl := hp.listens w hw₀
      have hmask : p'.signal.mask = p.signal.mask := mask (by simp [hw₀])
      exact
        { some := hl.some
          kill := hl.kill
          alive := h.queue.contains_eq_false hw (.inl rfl) hl.alive
          none := fun n hn => h.queue.contains_eq_false hw (.inr hn) (hl.none n hn)
          mask := hmask.trans hl.mask }
    | begins _ _ _ wait mask some none hk =>
      cases wait.symm.trans hw
      exact
        { some
          kill := SignalSet.contains_erase_kill _
          alive := hk
          none := fun n hn => SignalQueue.contains_eq_false_of_takeFirst none hn
          mask }
    | ends _ ended => cases ended.symm.trans hw
    | dies ended => cases ended.symm.trans hw

end Moment

/-! ## What has been so since some moment -/

/-- Something has been so of the process `s` since the `j`-th moment: `B` says of that moment and of
the record before it how it began, and `P` holds of the record after each moment from then on. -/
structure Spell (ms : List Moment) (s : Pid) (B : Moment → Process → Prop) (P : Process → Prop)
    (j : Nat) : Prop where
  start : ∃ m p, ms[j]? = some m ∧ m.before.procs.get? s = some p ∧ B m p
  since : ∀ i m, j ≤ i → ms[i]? = some m → ∃ p, m.after.procs.get? s = some p ∧ P p

/-- A moment was there before the last one, or it is the last one. -/
theorem Moment.of_snoc {ms : List Moment} {m m' : Moment} {i : Nat}
    (h : (ms ++ [m])[i]? = some m') : i < ms.length ∧ ms[i]? = some m' ∨ m' = m := by
  by_cases hlt : i < ms.length
  · exact .inl ⟨hlt, (List.getElem?_append_left hlt).symm.trans h⟩
  · obtain rfl : i = ms.length := by
      have hlast := (List.getElem?_eq_some_iff.1 h).1
      rw [List.length_append, List.length_singleton] at hlast
      omega
    cases List.getElem?_concat_length.symm.trans h
    exact .inr rfl

namespace Spell

variable {ms : List Moment} {m : Moment} {s : Pid} {B : Moment → Process → Prop}
  {P : Process → Prop} {p p' : Process} {j : Nat}

/-- The moment since which something has been so is one of the run. -/
theorem lt_length (h : Spell ms s B P j) : j < ms.length := by
  obtain ⟨_, _, hj, -⟩ := h.start
  exact (List.getElem?_eq_some_iff.1 hj).1

/-- Something begins in the last moment. -/
theorem begins (hp : m.before.procs.get? s = some p) (hB : B m p)
    (hp' : m.after.procs.get? s = some p') (hP : P p') : Spell (ms ++ [m]) s B P ms.length where
  start := ⟨m, p, List.getElem?_concat_length, hp, hB⟩
  since i m' hi hm' := by
    rcases Moment.of_snoc hm' with ⟨hlt, -⟩ | rfl
    · omega
    · exact ⟨p', hp', hP⟩

/-- It is still so after one more moment. -/
theorem goesOn (h : Spell ms s B P j) (hp' : m.after.procs.get? s = some p') (hP : P p') :
    Spell (ms ++ [m]) s B P j where
  start := by
    obtain ⟨m', p, hj, hp, hB⟩ := h.start
    exact ⟨m', p, (List.getElem?_append_left h.lt_length).trans hj, hp, hB⟩
  since i m' hi hm' := by
    rcases Moment.of_snoc hm' with ⟨-, hold⟩ | rfl
    · exact h.since i m' hi hold
    · exact ⟨p', hp', hP⟩

end Spell

/-- The signal `e` was sent to the process `s` in the `j`-th moment, no signal of its number was
pending before, and it has been pending with its value ever since. -/
def AcceptedAt (ms : List Moment) (s : Pid) (e : PendingSignal) (j : Nat) : Prop :=
  Spell ms s
    (fun m p => m.request? = some ⟨s, e.number, e.value⟩ ∧ p.signal.queue.contains e.number = false)
    (fun p => e ∈ p.signal.queue.entries) j

/-- The process `s` called in the `j`-th moment to wait for the signals of `w`, its mask before the
call was the one that `w` has saved, and it has been waiting ever since. -/
def WaitsSince (ms : List Moment) (s : Pid) (w : SignalWait) (j : Nat) : Prop :=
  Spell ms s
    (fun m p => m.event = .syscall s ∧ p.signal.mask = w.saved ∧
      ∃ args, m.before.asked? s = some (.signalWait, args) ∧ w.accept = args.accepted)
    (fun p => p.signal.wait = some w) j

/-- How the signals of a process came to be as they are: those that are pending were accepted one
after the other, and the wait began with a call. -/
structure Chronicled (ms : List Moment) (s : Pid) (p : Process) : Prop where
  arrivals : ∃ since : PendingSignal → Nat,
    p.signal.queue.entries.Pairwise (fun e e' => since e < since e') ∧
      ∀ e ∈ p.signal.queue.entries, AcceptedAt ms s e (since e)
  call : ∀ w, p.signal.wait = some w → ∃ j, WaitsSince ms s w j

namespace Moment

variable {ms : List Moment} {m : Moment} {s : Pid} {p p' : Process}

/-- After a moment too the pending signals stand in the order in which they were accepted. -/
theorem QueueStep.arrivals (h : m.QueueStep p p') (hp : m.before.procs.get? s = some p)
    (hp' : m.after.procs.get? s = some p') {since : PendingSignal → Nat}
    (order : p.signal.queue.entries.Pairwise fun e e' => since e < since e')
    (accepted : ∀ e ∈ p.signal.queue.entries, AcceptedAt ms s e (since e)) :
    ∃ since : PendingSignal → Nat,
      p'.signal.queue.entries.Pairwise (fun e e' => since e < since e') ∧
        ∀ e ∈ p'.signal.queue.entries, AcceptedAt (ms ++ [m]) s e (since e) := by
  -- those that were pending and still are have been all the while
  have goesOn : ∀ e, e ∈ p.signal.queue.entries → e ∈ p'.signal.queue.entries →
      AcceptedAt (ms ++ [m]) s e (since e) := fun e he he' => (accepted e he).goesOn hp' he'
  cases h with
  | same h =>
    refine ⟨since, h ▸ order, fun e he => goesOn e (h ▸ he) he⟩
  | @accepted n value hr _ new hq =>
    obtain ⟨-, hq⟩ := SignalQueue.push_eq_ok.1 hq
    have hs : p.pid = s := (ProcessTable.get?_eq_some.1 hp).2
    obtain ⟨since', hnew, hold⟩ : ∃ since' : PendingSignal → Nat,
        since' ⟨n, value⟩ = ms.length ∧ ∀ e ∈ p.signal.queue.entries, since' e = since e :=
      ⟨fun e => if e.number = n then ms.length else since e, if_pos rfl,
        fun e he => if_neg (SignalQueue.number_ne new he)⟩
    refine ⟨since', ?_, fun e he' => ?_⟩
    · rw [hq, List.pairwise_append]
      refine ⟨order.imp_of_mem fun he he' hlt => ?_, List.pairwise_singleton _ _, ?_⟩
      · rwa [hold _ he, hold _ he']
      · -- the last moment is later than those in which the others were accepted
        intro e he e' he'
        rw [List.mem_singleton.1 he', hold e he, hnew]
        exact (accepted e he).lt_length
    · have he := he'
      rw [hq] at he
      rcases List.mem_append.1 he with he | he
      · rw [hold e he]
        exact goesOn e he he'
      · obtain rfl := List.mem_singleton.1 he
        rw [hnew]
        exact .begins hp ⟨hs ▸ hr, new⟩ hp' he'
  | consumed _ ht =>
    have hsub := SignalQueue.sublist_of_takeFirst ht
    exact ⟨since, order.sublist hsub, fun e he => goesOn e (hsub.subset he) he⟩

/-- A moment carries on how the signals of a process came to be. -/
theorem SignalStep.chronicled (h : m.SignalStep p p') (hp : m.before.procs.get? s = some p)
    (hp' : m.after.procs.get? s = some p') (hc : Chronicled ms s p) :
    Chronicled (ms ++ [m]) s p' where
  arrivals := by
    obtain ⟨since, order, accepted⟩ := hc.arrivals
    exact h.queue.arrivals hp hp' order accepted
  call w hw := by
    have hs : p.pid = s := (ProcessTable.get?_eq_some.1 hp).2
    cases h.wait with
    | same hwait =>
      obtain ⟨j, hj⟩ := hc.call w (hwait ▸ hw)
      exact ⟨j, hj.goesOn hp' hw⟩
    | begins he asked _ wait =>
      cases wait.symm.trans hw
      rw [hs] at he asked
      exact ⟨ms.length, .begins hp ⟨he, rfl, _, asked, rfl⟩ hp' hw⟩
    | ends _ ended => cases ended.symm.trans hw
    | dies ended => cases ended.symm.trans hw

end Moment

/-! ## Runs -/

namespace Run

variable {clock : Clock} {ms : List Moment} {k : Kernel} {s : Pid} {p : Process}

/-- What is said of a process without signals, and is kept by every step, is said of all processes.
-/
theorem forall_of_signalStep {P : List Moment → Process → Prop} (run : Run (.boot clock) ms k)
    (fresh : ∀ ms (p : Process), p.signal = {} → P ms p)
    (step : ∀ ms (m : Moment) p p', m.before.procs.get? s = some p →
      m.after.procs.get? s = some p' → m.SignalStep p p' → P ms p → P (ms ++ [m]) p')
    (hp : k.procs.get? s = some p) : P ms p := by
  induction run generalizing p with
  | nil => exact absurd (ProcessTable.get?_eq_some.1 hp).1 nofun
  | @snoc ms k k' e a run allowed happens ih =>
    obtain ⟨hat, rfl⟩ := ProcessTable.get?_eq_some.1 hp
    have hfate := Event.fate run.sound allowed a k' happens p.pid.slot
    rw [hat] at hfate
    generalize ho : k.procs.at? p.pid.slot = o at hfate
    cases hfate with
    | held h =>
      have hget := ProcessTable.get?_eq_some.2 ⟨ho, h.pid.symm⟩
      have hstep := Event.signalStep run.sound allowed a k' happens _ _ _ ho hat
      exact step _ _ _ _ hget hp hstep (ih hget)
    | entered signal => exact fresh _ p signal

/-- In a run the signals of a process are in order. -/
theorem orderly (run : Run (.boot clock) ms k) (hp : k.procs.get? s = some p) : p.signal.Orderly :=
  run.forall_of_signalStep (s := s) (P := fun _ p => p.signal.Orderly)
    (fun _ _ h => h ▸ ⟨List.nodup_nil, nofun⟩) (fun _ _ _ _ _ _ h => h.orderly) hp

/-- In a run the signals of a process were accepted one after the other. -/
theorem chronicled (run : Run (.boot clock) ms k) (hp : k.procs.get? s = some p) :
    Chronicled ms s p :=
  run.forall_of_signalStep (P := fun ms p => Chronicled ms s p)
    (fun _ _ h => ⟨h ▸ ⟨fun _ => 0, .nil, nofun⟩, h ▸ nofun⟩)
    (fun _ _ _ _ hp hp' h => h.chronicled hp hp') hp

/-- In every kernel that a run leads to, the signals of every process are in order. At most 32 are
pending, none of them twice, in the order in which they were accepted and each with the value that
it was accepted with (`Chronicled`). A process that waits for signals is blocked, none of those that
would end its wait is pending, and its mask is that of its call less the signals it waits for.
Whatever happens next, signals become pending or are taken only as `Moment.QueueStep` says. The wait
goes on or ends with the mask of the call, unless the process is destroyed, and a signal that is
waited for does not get into the queue when it is sent. -/
theorem pending_signals (run : Run (.boot clock) ms k) (hp : k.procs.get? s = some p) :
    p.signal.queue.length ≤ 32 ∧ (p.signal.queue.entries.map PendingSignal.number).Nodup ∧
      (∀ e ∈ p.signal.queue.entries, 1 ≤ e.number ∧ e.number ≤ 64) ∧ Chronicled ms s p ∧
      (∀ w, p.signal.wait = some w → p.status = .blocked ∧ p.signal.Listens w) ∧
      ∀ e a k' p', e.Allowed k → e.perform k = .ok a k' → k'.procs.get? s = some p' →
        (⟨k, e, a, k'⟩ : Moment).QueueStep p p' ∧ ∀ w, p.signal.wait = some w →
          (p'.signal.wait = some w ∧ p'.signal.mask = p.signal.mask ∨
            p'.signal.wait = none ∧ (p'.signal.mask = w.saved ∨ p'.status = .dying)) ∧
          ∀ n value, (⟨k, e, a, k'⟩ : Moment).request? = some ⟨s, n, value⟩ →
            w.accept.contains n = true → p'.signal.queue = p.signal.queue := by
  obtain ⟨hat, rfl⟩ := ProcessTable.get?_eq_some.1 hp
  have settled : p.Settled := run.sound.settled hat
  have orderly : p.signal.Orderly := run.orderly hp
  refine ⟨(run.mortal hat).room, orderly.distinct, ?_, run.chronicled hp, fun w hw => ?_, ?_⟩
  · exact fun e he => SignalSet.isSignal_iff.1 (settled.signals e he)
  · have waits : p.waits .signal = true := by simp [Process.waits, hw]
    exact ⟨settled.blocked_of_waits waits, orderly.listens w hw⟩
  intro e a k' p' allowed step hp'
  obtain ⟨hat', hpid⟩ := ProcessTable.get?_eq_some.1 hp'
  have hstep := Event.signalStep run.sound allowed a k' step _ p p' hat (hpid ▸ hat')
  refine ⟨hstep.queue, fun w hw => ⟨hstep.wait.of_waits hw, fun n value hr hn => ?_⟩⟩
  exact hstep.queue.of_request hw (orderly.listens w hw).kill hr hn

/-- Signal 11 is sent to a process that calls to wait for signal 10. -/
def waitWithPending : List Event :=
  [.memory { Memory.mapPage {} 0 ⟨true, true, true, true, true⟩ 1 with
      bytes := (∅ : Std.ExtTreeMap Nat UInt8).insert 0x800 1 },
    .spawn 0 ((((TrapFrame.newUser 0x1000 0x2000).set .a7 137).set .a0 0x200).set .a1 0x1800),
    .schedule 0, .sendSignal (.ofSlot 1 0) 11 5, .syscall (.ofSlot 1 0)]

/-- The process waits with signal 11 pending. When it is sent signal 10 the wait is over, and that
signal is not pending. -/
theorem pending_signals_of_waitWithPending :
    ∃ ms k p w a k' p', play (.boot default) waitWithPending = some (ms, k) ∧
      k.procs.get? (.ofSlot 1 0) = some p ∧ p.signal.wait = some w ∧
      w.accept.contains 10 = true ∧ p.signal.queue = ⟨[⟨11, 5⟩]⟩ ∧ Chronicled ms (.ofSlot 1 0) p ∧
      p.signal.Listens w ∧ (Event.sendSignal (.ofSlot 1 0) 10 0).perform k = .ok a k' ∧
      k'.procs.get? (.ofSlot 1 0) = some p' ∧ p'.signal.wait = none ∧ p'.status = .runnable ∧
      p'.signal.mask = w.saved ∧ p'.signal.queue = ⟨[⟨11, 5⟩]⟩ := by
  have hplay : (play (.boot default) waitWithPending).any (fun r =>
      (r.2.procs.get? (.ofSlot 1 0)).any fun p =>
        p.signal.queue = ⟨[⟨11, 5⟩]⟩ ∧ (p.signal.wait.any fun w => w.accept.contains 10) = true ∧
          ((play r.2 [.sendSignal (.ofSlot 1 0) 10 0]).any fun r' =>
            (r'.2.procs.get? (.ofSlot 1 0)).any fun p' =>
              p'.signal.wait = none ∧ p'.status = .runnable) = true) = true := by
    decide +kernel
  obtain ⟨⟨ms, k⟩, h, hr⟩ := (Option.any_eq_true _ _).1 hplay
  obtain ⟨p, hp, hr⟩ := (Option.any_eq_true _ _).1 hr
  obtain ⟨hqueue, hwait, hr⟩ := of_decide_eq_true hr
  obtain ⟨w, hw, hn⟩ := (Option.any_eq_true _ _).1 hwait
  obtain ⟨⟨ms', k'⟩, h', hr⟩ := (Option.any_eq_true _ _).1 hr
  obtain ⟨p', hp', hr⟩ := (Option.any_eq_true _ _).1 hr
  obtain ⟨ended, runnable⟩ := of_decide_eq_true hr
  -- the one moment of what is played next
  obtain ⟨m, rfl, he⟩ := List.map_eq_singleton_iff.1 (events_of_play h')
  have run' : Run k ([] ++ [m]) k' := Run.of_play h'
  obtain ⟨-, -, step⟩ := run'.before (i := 0) rfl
  rw [he, run'.before_zero rfl, ← run'.after_last] at step
  obtain ⟨-, -, -, chronicled, hwaits, hnext⟩ := pending_signals (Run.of_play h) hp
  obtain ⟨-, hends⟩ := hnext (.sendSignal (.ofSlot 1 0) 10 0) m.answer k' p' trivial step hp'
  obtain ⟨hcase, hbypass⟩ := hends w hw
  have hmask : p'.signal.mask = w.saved := by
    obtain ⟨goesOn, -⟩ | ⟨-, hmask | dying⟩ := hcase
    · cases ended.symm.trans goesOn
    · exact hmask
    · cases runnable.symm.trans dying
  exact ⟨ms, k, p, w, m.answer, k', p', h, hp, hw, hn, hqueue, chronicled, (hwaits w hw).2, step,
    hp', ended, runnable, hmask, (hbypass 10 0 rfl hn).trans hqueue⟩

end Run

end SyncKernel
