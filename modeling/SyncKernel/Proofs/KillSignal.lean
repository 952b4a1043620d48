import SyncKernel.Proofs.Choosing
import SyncKernel.Proofs.Mortality
import SyncKernel.Proofs.Reachable

/-!
# The kill signal

What an event does to the slots of the table, as far as the kill signal is concerned, is said once
(`SlotFate`, `Event.fate`): a process is held as `Process.Held` says, or it is reclaimed, or one is
entered that can be killed. So in every kernel that a run leads to nothing comes between a process
and the kill signal (`Run.mortal`), and a process for which the kill signal is pending is to be
killed until it dies; each of its returns to user mode before that uses up one of the signals in
front of the kill signal (`Run.condemned`). As a queue has room for 32 signals, a process that is to
be killed goes on in user mode 31 times at most (`Run.kill_inescapable`). Nothing is delivered to a
process that does not go back to user mode, so this is said of runs in which every process starts
there (`UserMode`).

It takes room in the queue to send the kill signal. A process that has as many other signals pending
as its queue holds cannot be sent it (`Run.kill_sent_or_refused`).
-/

namespace SyncKernel

open Step

/-! ## What events do to a slot -/

/-- Whether a process that is entered starts in user mode. -/
def Event.startsInUser : Event → Bool
  | .spawn _ frame => frame.fromUser
  | _ => true

/-- Every process that is entered starts in user mode. -/
def UserMode (ms : List Moment) : Prop :=
  ∀ m ∈ ms, m.event.startsInUser = true

instance (ms : List Moment) : Decidable (UserMode ms) :=
  inferInstanceAs (Decidable (∀ m ∈ ms, m.event.startsInUser = true))

/-- Two parts of a run in which processes start in user mode make one. -/
theorem UserMode.append {ms ms' : List Moment} (h : UserMode ms) (h' : UserMode ms') :
    UserMode (ms ++ ms') :=
  fun m hm => (List.mem_append.1 hm).elim (h m) (h' m)

/-- In this moment the process `s` is taken out of the table. -/
def Moment.Reclaims (m : Moment) (s : Pid) : Prop :=
  m.event = .reclaim s ∧ m.answer = .replied (.ok ())

/-- What may become of a slot of the table when an event is answered. -/
inductive SlotFate (e : Event) (a : Answer) : Option Process → Option Process → Prop where
  /-- The process in it stays there. -/
  | held {p p' : Process} (h : p.Held p') : SlotFate e a (some p) (some p')
  /-- The process in it is reclaimed. -/
  | reclaimed {p : Process} (he : e = .reclaim p.pid) (ha : a = .replied (.ok ())) :
      SlotFate e a (some p) none
  /-- A new process is entered. -/
  | entered {p : Process} (signal : p.signal = {})
      (user : e.startsInUser = true → p.frame.fromUser = true) : SlotFate e a none (some p)
  /-- It stays empty. -/
  | empty : SlotFate e a none none

section
variable {k k' : Kernel} {e : Event} {a : Answer} {p : Process}

/-- Where every record is kept, so is every slot. -/
theorem SlotFate.of_each (h : k.procs.Each Process.Held k'.procs) (i : Fin slotCount) :
    SlotFate e a (k.procs.at? i) (k'.procs.at? i) := by
  have hi := h i
  revert hi
  cases k.procs.at? i <;> cases k'.procs.at? i <;> intro hi <;> cases hi
  · exact .empty
  · next h => exact .held h

namespace Kernel

/-- A return to user mode holds all processes, also the one that returns. -/
theorem trapReturn_held (h : k.board.Sound) (hp : k.procs.at? p.pid.slot = some p)
    (run : p.status = .running) :
    Leaves (trapReturn p.pid) k fun _ k' => k.procs.Each Process.Held k'.procs := by
  intro r k' hret
  have hback := ((trapReturn_ends h hp run).of_eq hret).2
  obtain ⟨a, k₁, hdeliver, hk⟩ := leaves_trapReturn k p.pid r k' hret
  have hrest := hk.procs.mono Process.Changes.held
  obtain ⟨e, -, rfl⟩ | ⟨q, d, q₁, m, hq, -, -, hd, -, hprocs, -⟩ :=
    leaves_deliver k p.pid a k₁ hdeliver
  · exact hrest
  cases hp.symm.trans hq
  have hdelivers := Process.deliver_delivers hd
  have hpid : q₁.pid = p.pid := hdelivers.sameStanding.pid
  intro i
  by_cases hi : p.pid.slot = i
  · subst hi
    have hat : k₁.procs.at? p.pid.slot = some q₁ := by
      rw [hprocs, ← hpid, ProcessTable.at?_put_self]
    obtain ⟨p', hp', hheld⟩ := hrest.exists_after hat
    rw [hp, hp']
    refine .some (hdelivers.held (by simp [run]) hheld fun hfatal => ?_)
    cases hback with
    | killed _ _ after dying =>
      cases (ProcessTable.get?_eq_some.1 after).1.symm.trans hp'
      exact dying
    | resumes hd' notFatal =>
      cases hd'.symm.trans hd
      cases notFatal.symm.trans hfatal
  · have hat : k₁.procs.at? i = k.procs.at? i := by
      rw [hprocs, ProcessTable.at?_put_of_ne (hpid ▸ hi)]
    exact hat ▸ hrest i

/-- Scheduling keeps what every event keeps. -/
theorem schedule_held (placed : k.procs.Placed) (cpu : Nat) :
    Leaves (schedule cpu) k fun _ k' => k.procs.Each Process.Held k'.procs := by
  intro d k' hstep
  obtain ⟨_, n, w, state, he, hchoose, -⟩ := schedule_ok hstep
  have hw := Population.expireSlots_each _ placed he
  have hchosen := hchoose.each (hw.placed (fun h => h.pid) placed)
  exact (hw.mono fun h => h.toSameSignals.held).trans (hchosen.mono Process.SameSignals.held)

end Kernel

/-- What an event does to the slots of the table. -/
theorem Event.fate (h : k.board.Sound) (allowed : e.Allowed k) :
    Leaves e.perform k fun a k' => ∀ i, SlotFate e a (k.procs.at? i) (k'.procs.at? i) := by
  have placed : k.procs.Placed := fun i p hp => h.table.placed i p hp
  have held : ∀ {a : Answer} {k' : Kernel}, k.procs.Each Process.Held k'.procs →
      ∀ i, SlotFate e a (k.procs.at? i) (k'.procs.at? i) := fun hk => SlotFate.of_each hk
  have led : ∀ {a : Answer} {k' : Kernel}, k.LeadsTo k' →
      ∀ i, SlotFate e a (k.procs.at? i) (k'.procs.at? i) :=
    fun hk => held (hk.procs.mono Process.Changes.held)
  have still : ∀ {a : Answer} {k' : Kernel}, k'.procs = k.procs →
      ∀ i, SlotFate e a (k.procs.at? i) (k'.procs.at? i) := fun hk => held (hk ▸ .refl _)
  cases e with
  | spawn space frame =>
    refine leaves_map.2 ((Kernel.leaves_spawn k space frame).mono fun a k' hk => ?_)
    obtain ⟨_, -, rfl⟩ | ⟨pid, procs, -, ha, rfl⟩ := hk
    · exact still rfl
    obtain ⟨hfree, rfl⟩ := ProcessTable.alloc_ok ha
    intro i
    show SlotFate _ _ (k.procs.at? i) ((k.procs.put { pid, frame, space }).at? i)
    rw [ProcessTable.at?_put]
    split
    · next hi =>
      rw [← hi, hfree]
      exact .entered rfl id
    · exact still rfl i
  | syscall pid => exact leaves_map.2 ((Kernel.leads_syscall pid k).mono fun _ _ => led)
  | schedule cpu => exact leaves_map.2 ((Kernel.schedule_held placed cpu).mono fun _ _ => held)
  | timerTick =>
    refine leaves_map.2 ?_
    rw [Kernel.timerTick, leaves_bind, leaves_get]
    split
    · exact leaves_pure.2 (still rfl)
    · rw [leaves_bind, leaves_set]
      refine (Kernel.leaves_sweepNow (k := { k with lastSweep := k.clock.now }) placed).mono ?_
      exact fun _ _ hk => held (hk.procs.mono Process.Changes.held)
  | sweep => exact leaves_map.2 ((Kernel.leaves_sweepNow placed).mono fun _ _ => led)
  | advance | setClock | memory => exact leaves_map.2 (leaves_modify.2 (still rfl))
  | trapReturn pid =>
    obtain ⟨p, hp, rfl, run⟩ := Kernel.status_eq_running.1 allowed
    exact leaves_map.2 ((Kernel.trapReturn_held h hp run).mono fun _ _ => held)
  | sendSignal target n value =>
    exact leaves_map.2 ((Kernel.leads_sendSignal target n value k).mono fun _ _ => led)
  | futexWake address most =>
    exact leaves_map.2 ((Kernel.leads_futexWake address most k).mono fun _ _ => led)
  | destroy pid => exact leaves_map.2 ((Kernel.leads_destroy pid k).mono fun _ _ => led)
  | reclaim pid =>
    refine leaves_map.2 ((Kernel.leaves_reclaim k pid).mono fun a k' hk => ?_)
    obtain ⟨_, -, rfl⟩ | ⟨procs, rfl, hr, rfl⟩ := hk
    · exact still rfl
    obtain ⟨p, hp, -, -, hat⟩ := ProcessTable.reclaim_ok hr
    obtain ⟨hp, rfl⟩ := ProcessTable.get?_eq_some.1 hp
    intro i
    show SlotFate _ _ (k.procs.at? i) (procs.at? i)
    rw [hat]
    split
    · next hslot =>
      rw [← hslot, hp]
      exact .reclaimed rfl rfl
    · exact still rfl i
  | registers pid frame =>
    obtain ⟨p, hget, run, hf⟩ := allowed
    obtain ⟨hp, rfl⟩ := ProcessTable.get?_eq_some.1 hget
    refine leaves_map.2 (leaves_modify.2 (held ?_))
    have hput : k.procs.update p.pid (fun p => { p with frame }) = k.procs.put { p with frame } :=
      ProcessTable.update_eq_put hget rfl
    have hheld : p.Held { p with frame } :=
      Process.SameSignals.held ⟨rfl, rfl, hf, id⟩
    exact hput ▸ (ProcessTable.Each.refl _).put hp hheld

/-- A process stays in its slot unless it is reclaimed. -/
theorem Event.exists_held {k' : Kernel} {a : Answer} {s : Pid} (h : k.board.Sound)
    (allowed : e.Allowed k) (step : e.perform k = .ok a k') (hp : k.procs.get? s = some p)
    (kept : ¬ (⟨k, e, a, k'⟩ : Moment).Reclaims s) :
    ∃ p', k'.procs.get? s = some p' ∧ p.Held p' := by
  obtain ⟨hat, rfl⟩ := ProcessTable.get?_eq_some.1 hp
  have hfate := Event.fate h allowed a k' step p.pid.slot
  rw [hat] at hfate
  generalize ho : k'.procs.at? p.pid.slot = o at hfate
  cases hfate with
  | held h => exact ⟨_, ProcessTable.get?_eq_some.2 ⟨ho, h.pid⟩, h⟩
  | reclaimed he ha => exact absurd ⟨he, ha⟩ kept

end

/-! ## Processes that are to be killed -/

/-- In this moment the process `s` goes on in user mode. -/
def Moment.resumes (m : Moment) (s : Pid) : Bool :=
  match m.event, m.answer with
  | .trapReturn pid, .resumed (.resume _) => decide (pid = s)
  | _, _ => false

/-- Nothing comes between a process and the kill signal: its signal state lets the kill signal
through, no wait for signals takes it, no handler is called for it, and it is not handed to a wait.
-/
structure Process.Exposed (p : Process) : Prop extends p.signal.Mortal where
  awaited : ∀ m accept destination, (p.awaitSignal m accept destination).1 ≠ .ok (some killSignal)
  handled : ∀ m f p' m', p.deliver m ≠ .ok (.handled killSignal f, p', m')
  handed : ∀ m value p' m', p.sendSignal m killSignal value ≠ .ok (.ok .handed, p', m')

/-- What is answered to a process that is to be killed when it goes back to user mode, and what
becomes of it: it is dead, or it resumes with one signal less in front of the kill signal. It takes
a registered entry to resume. -/
inductive Process.NearsEnd (p : Process) : Kernel.TrapReturn → Kernel → Prop where
  | killed {p' : Process} {k : Kernel} (after : k.procs.get? p.pid = some p')
      (dying : p'.status = .dying) : NearsEnd p .killed k
  | resumes {p' : Process} {k : Kernel} (entry : p.signal.entry ≠ none)
      (after : k.procs.get? p.pid = some p') (drops : p.signal.queue.Drops p'.signal.queue) :
      NearsEnd p (.resume p'.frame) k

section
variable {k k' : Kernel} {m : Moment} {p : Process} {s : Pid} {r : Kernel.TrapReturn}

/-- A moment resumes a process if it answers a return to user code with a frame. -/
theorem Moment.resumes_eq_true :
    m.resumes s = true ↔
      m.event = .trapReturn s ∧ ∃ frame, m.answer = .resumed (.resume frame) := by
  unfold resumes
  split
  · next he ha => simp [he, ha]
  · next hne =>
    refine ⟨nofun, fun ⟨he, frame, ha⟩ => ?_⟩
    exact absurd ha (hne s frame he)

/-- A process whose signal state lets the kill signal through is exposed to it. -/
theorem SignalState.Mortal.exposed (h : p.signal.Mortal) : p.Exposed where
  toMortal := h
  awaited _ _ _ := (Process.awaitSignal_awaits rfl).ne_kill
  handled _ _ _ _ hd := (Process.deliver_delivers hd).ne_kill rfl
  handed _ _ _ _ hs := by
    cases Process.signalled_of_sendSignal hs with
    | handed _ hk => exact hk rfl

/-- A process that is to be killed and goes back to user mode is nearer to its end. -/
theorem Kernel.GoesBack.nearsEnd (h : k.GoesBack p r k') (hp : p.signal.Mortal)
    (user : p.frame.fromUser = true) (hk : p.Condemned) : p.NearsEnd r k' := by
  cases h with
  | killed _ _ after dying => exact .killed after dying
  | resumes hd fatal after =>
    obtain hfatal | ⟨entry, drops⟩ := (Process.deliver_delivers hd).condemned hp user hk
    · cases fatal.symm.trans hfatal
    · exact .resumes entry after drops

end

namespace Run

variable {clock : Clock} {ms ms' : List Moment} {k k' : Kernel} {p : Process} {s : Pid}

/-- What new processes are like and what is held of a process, all processes are like. -/
theorem forall_of_held {P : Process → Prop} (run : Run (.boot clock) ms k)
    (held : ∀ {p p'}, p.Held p' → P p → P p')
    (entered : ∀ m ∈ ms, ∀ p : Process, p.signal = {} →
      (m.event.startsInUser = true → p.frame.fromUser = true) → P p)
    {i : Fin slotCount} (hp : k.procs.at? i = some p) : P p := by
  induction run generalizing p with
  | nil => cases hp
  | @snoc ms k k' e a run allowed step ih =>
    have hfate := Event.fate run.sound allowed a k' step i
    rw [hp] at hfate
    generalize ho : k.procs.at? i = o at hfate
    cases hfate with
    | held h => exact held h (ih (fun m hm => entered m (List.mem_append_left _ hm)) ho)
    | entered signal user => exact entered _ List.mem_append_cons_self p signal user

/-- Every process can be killed. -/
theorem mortal (run : Run (.boot clock) ms k) {i : Fin slotCount} (hp : k.procs.at? i = some p) :
    p.signal.Mortal :=
  run.forall_of_held (P := fun p => p.signal.Mortal) (fun h => h.mortal)
    (fun _ _ _ signal _ => signal ▸ .fresh) hp

/-- If every process starts in user mode, all processes go back to user mode. -/
theorem fromUser (run : Run (.boot clock) ms k) (user : UserMode ms) {i : Fin slotCount}
    (hp : k.procs.at? i = some p) : p.frame.fromUser = true :=
  run.forall_of_held (P := fun p => p.frame.fromUser = true) (fun h => h.user)
    (fun m hm _ _ start => start (user m hm)) hp

/-- A process that is to be killed goes back to user mode. -/
theorem nearsEnd (run : Run (.boot clock) ms k) (user : UserMode ms)
    (hp : k.procs.get? s = some p) (hk : p.Condemned) (running : p.status = .running) :
    Step.Ends (Kernel.trapReturn s) k fun r k' => p.NearsEnd r k' := by
  obtain ⟨hat, rfl⟩ := ProcessTable.get?_eq_some.1 hp
  refine (Kernel.trapReturn_ends run.sound hat running).mono fun r k' ⟨_, hback⟩ => ?_
  exact hback.nearsEnd (run.mortal hat) (run.fromUser user hat) hk

/-- A process that is to be killed and goes on in user mode has one signal less in front of the kill
signal. -/
theorem drops_of_resumes {m : Moment} (run : Run (.boot clock) ms m.before) (user : UserMode ms)
    (step : m.event.perform m.before = .ok m.answer m.after) (hres : m.resumes s = true)
    (hp : m.before.procs.get? s = some p) (hk : p.Condemned) (running : p.status = .running) :
    ∃ p', m.after.procs.get? s = some p' ∧ p.signal.queue.Drops p'.signal.queue := by
  obtain ⟨he, frame, ha⟩ := Moment.resumes_eq_true.1 hres
  have hreturn : Step.Ends (Event.trapReturn s).perform m.before fun a k' =>
      ∃ r, a = .resumed r ∧ p.NearsEnd r k' :=
    Step.ends_map.2 ((run.nearsEnd user hp hk running).mono fun r _ hr => ⟨r, rfl, hr⟩)
  rw [he, ha] at step
  obtain ⟨r, hr, hnears⟩ := hreturn.of_eq step
  cases hnears with
  | killed => cases hr
  | resumes _ after drops => exact ⟨_, (ProcessTable.get?_eq_some.1 hp).2 ▸ after, drops⟩

/-- A process that is to be killed, and is not reclaimed, still is to be killed later or is dead.
Each time it went on in user mode, there is one signal less in front of the kill signal. -/
theorem condemned (run : Run (.boot clock) ms k) (user : UserMode ms)
    (hp : k.procs.get? s = some p) (hk : p.Condemned) (run' : Run k ms' k') (user' : UserMode ms')
    (kept : ∀ m ∈ ms', ¬ m.Reclaims s) :
    ∃ p', k'.procs.get? s = some p' ∧
      (p'.status = .dying ∧ ms'.countP (·.resumes s) ≤ p.signal.queue.ahead.length ∨
        p'.Condemned ∧
          p'.signal.queue.ahead.length + ms'.countP (·.resumes s) ≤
            p.signal.queue.ahead.length) := by
  induction run' with
  | nil => exact ⟨p, hp, .inr ⟨hk, Nat.le_refl _⟩⟩
  | @snoc ms₁ k₁ k' e a run₁ allowed step ih =>
    have user₁ : UserMode ms₁ := fun m hm => user' m (List.mem_append_left _ hm)
    obtain ⟨p₁, hp₁, hcase⟩ := ih user₁ fun m hm => kept m (List.mem_append_left _ hm)
    have whole := run.append run₁
    obtain ⟨p', hp', hheld⟩ :=
      Event.exists_held whole.sound allowed step hp₁ (kept _ List.mem_append_cons_self)
    refine ⟨p', hp', ?_⟩
    rw [List.countP_append, List.countP_singleton]
    by_cases hres : (⟨k₁, e, a, k'⟩ : Moment).resumes s = true
    · rw [if_pos hres]
      have running : p₁.status = .running := by
        obtain ⟨rfl, -⟩ := Moment.resumes_eq_true.1 hres
        simpa [Event.Allowed, Kernel.status, hp₁] using allowed
      rcases hcase with ⟨hd, -⟩ | ⟨hc, hle⟩
      · cases running.symm.trans hd
      · obtain ⟨q, hq, drops⟩ :=
          whole.drops_of_resumes (user.append user₁) step hres hp₁ hc running
        cases hp'.symm.trans hq
        have hdrop := drops.length_ahead
        exact .inr ⟨drops.contains, by omega⟩
    · rw [if_neg hres]
      rcases hcase with ⟨hd, hle⟩ | ⟨hc, hle⟩
      · exact .inl ⟨hheld.dying hd, hle⟩
      rcases hheld.keeps with hd | hkeeps
      · exact .inl ⟨hd, by omega⟩
      · obtain ⟨hc', hsub⟩ := hkeeps hc
        have hlength := hsub.length_le
        exact .inr ⟨hc', by omega⟩

/-- If every process starts in user mode, the kill signal cannot be escaped. Nothing comes between a
process and the kill signal. Once it is pending for a process, it is until the process is dead, and
as long as it is, the process does not wait for signals. The process then goes on in user mode less
often than its queue has places, that is 31 times at most. Whenever it goes back to user mode, it
is dead then, or there is one signal less in front of the kill signal; without a registered entry it
is dead. -/
theorem kill_inescapable (run : Run (.boot clock) ms k) (user : UserMode ms) :
    (∀ p ∈ k.procs.processes, p.Exposed) ∧
      ∀ s p, k.procs.get? s = some p → p.Condemned → ∀ ms' k', Run k ms' k' → UserMode ms' →
        (∀ m ∈ ms', ¬ m.Reclaims s) →
          ms'.countP (·.resumes s) < queueCapacity ∧
            ∃ p', k'.procs.get? s = some p' ∧
              (p'.status = .dying ∨ p'.Condemned ∧ p'.signal.wait = none) ∧
              (p'.status = .running →
                ∃ r k'', Kernel.trapReturn s k' = .ok r k'' ∧ p'.NearsEnd r k'') := by
  refine ⟨fun p hp => ?_, fun s p hp hk ms' k' run' user' kept => ?_⟩
  · obtain ⟨i, hi⟩ := ProcessTable.mem_processes.1 hp
    exact (run.mortal hi).exposed
  have whole := run.append run'
  obtain ⟨p', hp', hcase⟩ := run.condemned user hp hk run' user' kept
  have hroom : p.signal.queue.ahead.length < queueCapacity := by
    obtain ⟨hat, -⟩ := ProcessTable.get?_eq_some.1 hp
    exact Nat.lt_of_lt_of_le (SignalQueue.length_ahead_lt hk) (run.mortal hat).room
  obtain ⟨hat', -⟩ := ProcessTable.get?_eq_some.1 hp'
  refine ⟨by omega, p', hp', ?_, fun running => ?_⟩
  · rcases hcase with ⟨hd, -⟩ | ⟨hc, -⟩
    · exact .inl hd
    · exact .inr ⟨hc, (whole.mortal hat').awake hc⟩
  · rcases hcase with ⟨hd, -⟩ | ⟨hc, -⟩
    · cases running.symm.trans hd
    · exact whole.nearsEnd (user.append user') hp' hc running

/-- A process registers an entry and ignores signal 10, and is sent that signal and the kill signal.
-/
def ignoreThenKill : List Event :=
  [.memory { Memory.mapPage {} 0 ⟨true, true, true, true, true⟩ 1 with
      bytes := (∅ : Std.ExtTreeMap Nat UInt8).insert 0x800 1 },
    .spawn 0 (((TrapFrame.newUser 0x1000 0x2000).set .a7 1104).set .a0 0x1000), .schedule 0,
    .syscall (.ofSlot 1 0),
    .registers (.ofSlot 1 0)
      ((((TrapFrame.newUser 0x1000 0x2000).set .a7 134).set .a0 10).set .a1 0x1800),
    .syscall (.ofSlot 1 0), .sendSignal (.ofSlot 1 0) 10 0, .sendSignal (.ofSlot 1 0) 9 0]

/-- The process goes on in user mode once, and is to be killed then. -/
theorem kill_inescapable_of_ignoreThenKill :
    ∃ ms k p ms' k', play (.boot default) ignoreThenKill = some (ms, k) ∧ UserMode ms ∧
      k.procs.get? (.ofSlot 1 0) = some p ∧ p.Condemned ∧
      play k [.trapReturn (.ofSlot 1 0)] = some (ms', k') ∧
      ms'.countP (·.resumes (.ofSlot 1 0)) = 1 ∧
      ∃ p' r k'', k'.procs.get? (.ofSlot 1 0) = some p' ∧ p'.Condemned ∧
        Kernel.trapReturn (.ofSlot 1 0) k' = .ok r k'' ∧ p'.NearsEnd r k'' := by
  have hplay : (play (.boot default) ignoreThenKill).any (fun r =>
      UserMode r.1 ∧
        ((r.2.procs.get? (.ofSlot 1 0)).any fun p => p.signal.queue.contains killSignal) = true ∧
        ((play r.2 [.trapReturn (.ofSlot 1 0)]).any fun r' =>
          r'.1.countP (·.resumes (.ofSlot 1 0)) = 1 ∧ UserMode r'.1 ∧
            r'.2.status (.ofSlot 1 0) = .running) = true) = true := by
    decide +kernel
  obtain ⟨⟨ms, k⟩, h, hr⟩ := (Option.any_eq_true _ _).1 hplay
  obtain ⟨user, hk, hr⟩ := of_decide_eq_true hr
  obtain ⟨p, hp, hk⟩ := (Option.any_eq_true _ _).1 hk
  obtain ⟨⟨ms', k'⟩, h', hr⟩ := (Option.any_eq_true _ _).1 hr
  obtain ⟨hcount, user', running⟩ := of_decide_eq_true hr
  have kept : ∀ m ∈ ms', ¬ m.Reclaims (.ofSlot 1 0) := by
    rintro m hm ⟨he, -⟩
    have hmem := List.mem_map_of_mem (f := Moment.event) hm
    rw [events_of_play h', he] at hmem
    cases List.mem_singleton.1 hmem
  obtain ⟨-, hdoomed⟩ := kill_inescapable (Run.of_play h) user
  obtain ⟨-, p', hp', hcase, hreturn⟩ := hdoomed _ p hp hk ms' k' (Run.of_play h') user' kept
  have running : p'.status = .running := by simpa [Kernel.status, hp'] using running
  have hc : p'.Condemned := by
    rcases hcase with hd | ⟨hc, -⟩
    · cases running.symm.trans hd
    · exact hc
  obtain ⟨r, k'', hret, hnears⟩ := hreturn running
  exact ⟨ms, k, p, ms', k', h, user, hp, hk, h', hcount, p', r, k'', hp', hc, hret, hnears⟩

end Run

/-! ## Sending the kill signal -/

/-- There is no room for the kill signal: other signals take all places of the queue. -/
def Process.Crowded (p : Process) : Prop :=
  p.signal.queue.contains killSignal = false ∧ p.signal.queue.isFull = true

instance (p : Process) : Decidable p.Crowded :=
  inferInstanceAs (Decidable (_ ∧ _))

/-- The kill signal is refused if there is no room for it, and otherwise it is pending. -/
theorem Process.Signalled.of_kill {p p' : Process} {m m' : Memory} {value : UInt64}
    {a : Except Errno Sent} (h : Signalled p m killSignal value a p' m') :
    p.Crowded ∧ a = .error .outOfMemory ∧ p' = p ∧ m' = m ∨
      ¬ p.Crowded ∧ (a = .ok .merged ∨ a = .ok .queued) ∧ p'.Condemned := by
  have pushed : ∀ {queue : SignalQueue}, p.signal.queue.push ⟨killSignal, value⟩ = .ok queue →
      ¬ p.Crowded ∧ queue.contains killSignal = true := by
    intro queue hq
    obtain ⟨hroom, rfl⟩ := SignalQueue.push_eq_ok.1 hq
    refine ⟨fun hc => by simp [hc.2] at hroom, ?_⟩
    exact SignalQueue.contains_eq_true.2 ⟨⟨killSignal, value⟩, List.mem_append_cons_self, rfl⟩
  cases h with
  | refused h =>
    rcases h with hn | ⟨hc, hq⟩
    · cases hn
    · obtain ⟨hfull, rfl⟩ := SignalQueue.push_eq_error.1 hq
      exact .inl ⟨⟨hc, hfull⟩, rfl, rfl, rfl⟩
  | merged _ hk => exact .inr ⟨fun hc => by simp [hc.1] at hk, .inl rfl, hk⟩
  | queued _ hq => exact .inr ⟨(pushed hq).1, .inr rfl, (pushed hq).2⟩
  | interrupted _ hq => exact .inr ⟨(pushed hq).1, .inr rfl, (pushed hq).2⟩
  | handed _ hk | lost _ hk => exact absurd rfl hk

namespace Run

variable {clock : Clock} {ms : List Moment} {k : Kernel} {p : Process} {s : Pid}

/-- The kill signal is sent to a live process, which then is to be killed and does not wait for
signals, unless other signals take all places of its queue. Then it is refused, and nothing changes.
-/
theorem kill_sent_or_refused (run : Run (.boot clock) ms k) (hp : k.procs.lookup s = .ok p)
    (value : UInt64) :
    (¬ p.Crowded → ∃ k' p', Kernel.sendSignal s killSignal value k = .ok (.ok ()) k' ∧
        k'.procs.get? s = some p' ∧ p'.Condemned ∧ p'.signal.wait = none) ∧
      (p.Crowded → Kernel.sendSignal s killSignal value k = .ok (.error .outOfMemory) k) := by
  obtain ⟨hget, -⟩ := ProcessTable.lookup_eq_ok.1 hp
  obtain ⟨hat, rfl⟩ := ProcessTable.get?_eq_some.1 hget
  have settled : p.Settled := run.sound.settled hat
  obtain ⟨a, p', m', hsend, hsig⟩ := p.sendSignal_ends settled k.memory killSignal value
  have hk : Step.Ends (Kernel.sendSignal p.pid killSignal value) k fun r k' =>
      p.Crowded ∧ r = .error .outOfMemory ∧ k' = k ∨
        ¬ p.Crowded ∧ r = .ok () ∧ k'.procs.get? p.pid = some p' ∧ p'.Condemned := by
    rw [Kernel.sendSignal, Step.ends_bind, Step.ends_ofLive]
    refine .inr ⟨p, a, p', m', hp, hsend, ?_⟩
    obtain ⟨hc, rfl, rfl, rfl⟩ | ⟨hc, ha, hk⟩ := hsig.of_kill
    · rw [Kernel.put_record_self hat]
      exact Step.ends_pure.2 (.inl ⟨hc, rfl, rfl⟩)
    · have hput : (k.procs.put p').get? p.pid = some p' := hsig.pid ▸ ProcessTable.get?_put_self
      rcases ha with rfl | rfl <;> exact ⟨_, _, rfl, .inr ⟨hc, rfl, hput, hk⟩⟩
  have mortal : p'.signal.Mortal := hsig.mortal (run.mortal hat)
  obtain ⟨r, k', hr, ⟨hc, rfl, rfl⟩ | ⟨hc, rfl, hp', hk⟩⟩ := hk
  · exact ⟨fun hnot => absurd hc hnot, fun _ => hr⟩
  · exact ⟨fun _ => ⟨k', p', hr, hp', hk, mortal.awake hk⟩, fun hc' => absurd hc' hc⟩

/-- A process is sent so many signals, from signal 10 on. -/
def fillQueue (n : Nat) : List Event :=
  .spawn 0 (TrapFrame.newUser 0x1000 0x2000) ::
    (List.range n).map fun i => .sendSignal (.ofSlot 1 0) (10 + i) 0

/-- With 31 signals pending a process can be sent the kill signal, with 32 it cannot. -/
theorem kill_sent_or_refused_of_fillQueue :
    (∃ ms k p, play (.boot default) (fillQueue 31) = some (ms, k) ∧
      k.procs.lookup (.ofSlot 1 0) = .ok p ∧ p.signal.queue.length = 31 ∧
      ∃ k' p', Kernel.sendSignal (.ofSlot 1 0) killSignal 0 k = .ok (.ok ()) k' ∧
        k'.procs.get? (.ofSlot 1 0) = some p' ∧ p'.Condemned ∧ p'.signal.wait = none) ∧
      ∃ ms k p, play (.boot default) (fillQueue 32) = some (ms, k) ∧
        k.procs.lookup (.ofSlot 1 0) = .ok p ∧ p.signal.queue.length = 32 ∧
        Kernel.sendSignal (.ofSlot 1 0) killSignal 0 k = .ok (.error .outOfMemory) k := by
  have hplay : ∀ n, n = 31 ∨ n = 32 → (play (.boot default) (fillQueue n)).any (fun r =>
      match r.2.procs.lookup (.ofSlot 1 0) with
      | .ok p => p.signal.queue.length = n ∧ (p.Crowded ↔ n = 32)
      | .error _ => false) = true := by
    rintro n (rfl | rfl) <;> decide +kernel
  have filled : ∀ n, n = 31 ∨ n = 32 → ∃ ms k p, play (.boot default) (fillQueue n) = some (ms, k) ∧
      k.procs.lookup (.ofSlot 1 0) = .ok p ∧ p.signal.queue.length = n ∧ (p.Crowded ↔ n = 32) := by
    intro n hn
    obtain ⟨⟨ms, k⟩, h, hr⟩ := (Option.any_eq_true _ _).1 (hplay n hn)
    split at hr
    · next p hp =>
      obtain ⟨hlength, hc⟩ := of_decide_eq_true hr
      exact ⟨ms, k, p, h, hp, hlength, hc⟩
    · cases hr
  constructor
  · obtain ⟨ms, k, p, h, hp, hlength, hc⟩ := filled 31 (.inl rfl)
    have room : ¬ p.Crowded := fun hcrowded => by simpa using hc.1 hcrowded
    exact ⟨ms, k, p, h, hp, hlength, (kill_sent_or_refused (Run.of_play h) hp 0).1 room⟩
  · obtain ⟨ms, k, p, h, hp, hlength, hc⟩ := filled 32 (.inr rfl)
    exact ⟨ms, k, p, h, hp, hlength,
      (kill_sent_or_refused (Run.of_play h) hp 0).2 (hc.2 rfl)⟩

end Run

end SyncKernel
