import SyncKernel.Proofs.Waking

/-!
# Operations on one process

What entering, ending, reclaiming and signalling a process and its return to user code do to the
board. From a board in order none of these operations stops with a fault, and each but the coming
and going of processes is one deed (`Kernel.Did`): a signal that cannot be told destroys its target
(`sendSignal_ends`), a return to user code destroys a process that has to end (`trapReturn_ends`),
and a dying process is in no queue any more when it is reclaimed (`reclaim_ends`).
-/

namespace SyncKernel

/-- The process that the signal was delivered to has to end. -/
def Delivery.isFatal : Delivery → Bool
  | fatal _ | unwritable _ _ => true
  | none | ignored _ | handled _ _ => false

/-- A delivery after which the process has to end takes a signal and changes nothing else. -/
theorem Process.deliver_of_isFatal {p q : Process} {m m' : Memory} {d : Delivery}
    (h : p.deliver m = .ok (d, q, m')) (hd : d.isFatal = true) :
    m' = m ∧ q.locks m = p.locks m := by
  cases Process.deliver_delivers h with
  | nothing | taken => exact ⟨rfl, rfl⟩
  | called => cases hd

namespace Kernel

open Board Step

variable {k k' : Kernel} {p p' : Process} {pid : Pid}

/-- Putting back the record that is there changes nothing. -/
theorem put_record_self (hp : k.board.procs.at? p.pid.slot = some p) :
    { k with procs := k.procs.put p } = k := by
  have hput : k.procs.put p = k.procs := ProcessTable.put_self hp
  rw [hput]

/-! ## Entering and ending -/

/-- A process is entered, or there is no room. -/
theorem spawn_ends (space : SpaceId) (frame : TrapFrame) :
    Ends (spawn space frame) k fun _ k' => k'.board = k.board ∨ Turnover k.board k'.board := by
  rw [spawn, ends_bind, ends_get]
  split
  · exact ends_pure.2 (.inl rfl)
  · next pid procs h =>
    rw [ends_bind, ends_set, ends_bind, ends_note, ends_pure]
    exact .inr (.enter h)

/-- A process that is reclaimed is dying, and waits on nothing. -/
theorem reclaim_ends (h : k.board.Sound) (pid : Pid) :
    Ends (reclaim pid) k fun _ k' => k'.board = k.board ∨ Turnover k.board k'.board := by
  rw [reclaim, ends_bind, ends_get]
  split
  · next fault hr =>
    obtain ⟨r, hr'⟩ := h.table.reclaim_ends pid
    cases hr.symm.trans hr'
  · exact ends_pure.2 (.inl rfl)
  · next procs hr =>
    obtain ⟨p, hp, -, hf, -⟩ := ProcessTable.reclaim_ok hr
    have hq : k.futexes.isQueued pid = false := by
      refine h.queues.isQueued_eq_false fun q hq => ?_
      cases hp.symm.trans hq
      exact hf
    rw [if_neg (by simp [hq]), ends_bind, ends_set, ends_pure]
    exact .inr (.reclaim hr)

/-- Destroying a process that the operation is about is a deed. -/
theorem Destroyed.did (h : Destroyed k.board p p k k') (hp : k.board.procs.at? p.pid.slot = some p)
    (live : p.status ≠ .dying) (sent : Option SignalRequest) :
    Did (some p.pid) sent .none k k' :=
  ⟨⟨_, .inr ⟨rfl, _, _, rfl⟩, .bury rfl hp live h.wakes⟩, h.clock⟩

/-- Destroying a process of an id succeeds if there is a live one, and otherwise changes nothing. -/
theorem destroy_did (h : k.board.Sound) (pid : Pid) :
    Ends (destroy pid) k fun a k' => Did (some pid) none .none k k' ∧
      (a = .ok () →
        k.procs.Live pid ∧ ∃ p, k'.procs.get? pid = some p ∧ p.status = .dying) := by
  cases hl : k.procs.lookup pid with
  | error e =>
    rw [destroy, ends_bind, ends_get, hl]
    refine ends_pure.2 ⟨.of_board rfl rfl, fun h => ?_⟩
    cases h
  | ok p =>
    obtain ⟨hget, live⟩ := ProcessTable.lookup_eq_ok.1 hl
    obtain ⟨hp, rfl⟩ := ProcessTable.get?_eq_some.1 hget
    refine (destroy_ends (put_self hp).symm h hp live (.inl rfl)).mono fun a k' hd => ?_
    obtain ⟨-, hd⟩ := hd
    refine ⟨hd.did hp live _, fun _ => ?_⟩
    exact ⟨⟨p, hl⟩, _, ProcessTable.get?_eq_some.2 ⟨hd.dying rfl, rfl⟩, rfl⟩

/-- Destroying a process consists of moves, and leaves it dying. -/
theorem destroy_moved (h : k.board.Sound) (pid : Pid) :
    Ends (destroy pid) k fun a k' => Moved k k' ∧
      (a = .ok () → ∃ p, k'.procs.get? pid = some p ∧ p.status = .dying) :=
  (destroy_did h pid).mono fun _ _ ⟨hd, hdying⟩ => ⟨hd.moved, fun ha => (hdying ha).2⟩

/-- A live process can be killed. -/
theorem kill_ends (h : k.board.Sound) (hp : k.procs.at? p.pid.slot = some p)
    (live : p.status ≠ .dying) (why : KillReason) :
    Ends (kill p.pid why) k fun _ k' => Destroyed k.board p p k k' := by
  rw [kill, ends_bind, ends_note, ends_bind]
  have hput : (k.noted (.terminating p.pid why)).board = k.board.put p := (put_self hp).symm
  refine (destroy_ends hput h hp live (.inl rfl)).mono fun a k' ⟨ha, hd⟩ => ?_
  rw [ha]
  exact ends_pure.2 ⟨hd.wakes, hd.clock⟩

/-- Processes that run go on running when one that does not run is destroyed. -/
theorem Destroyed.runs {b : Board} {q : Process} (h : Destroyed b p q k k') (hpid : q.pid = p.pid)
    (hp : b.procs.at? p.pid.slot = some p) (hne : p.status ≠ .running) (hr : b.Runs pid) :
    k'.board.Runs pid := by
  obtain ⟨r, hat, rfl, run⟩ := hr
  have hs : p.pid.slot ≠ r.pid.slot := by
    intro hs
    rw [hs, hat] at hp
    cases hp
    exact hne run
  have hat' : (b.buried p q).procs.at? r.pid.slot = some r := by
    refine (ProcessTable.at?_put_of_ne ?_).trans hat
    exact hpid ▸ hs
  exact ⟨r, h.wakes.at?_of_ne hat' (by simp [run]), rfl, run⟩

/-! ## Signals -/

theorem noteSent_ends (pid : Pid) (n : Nat) (sent : Sent) :
    Ends (noteSent pid n sent) k fun _ k' => SameBoard k k' ∧ k'.memory = k.memory := by
  cases sent with
  | handed => exact ends_note.2 ⟨⟨rfl, rfl⟩, rfl⟩
  | queued | merged | lost => exact ends_pure.2 ⟨.refl k, rfl⟩

/-- Sending a signal is a deed; one that is lost destroys its target. A process that runs does not
wait for a signal, so it goes on running. A signal that is refused changes nothing. -/
theorem sendSignal_ends (h : k.board.Sound) (target : Pid) (n : Nat) (value : UInt64)
    (subject : Option Pid) :
    Ends (sendSignal target n value) k fun a k' =>
      Did subject (some ⟨target, n, value⟩) .none k k' ∧
        (∀ pid, k.board.Runs pid → k'.board.Runs pid) ∧ ∀ e, a = .error e → k' = k := by
  rw [sendSignal, ends_bind, ends_ofLive]
  cases hl : k.procs.lookup target with
  | error e => exact .inl ⟨e, rfl, ends_pure.2 ⟨.of_board rfl rfl, fun _ => id, fun _ _ => rfl⟩⟩
  | ok p =>
    obtain ⟨hget, live⟩ := ProcessTable.lookup_eq_ok.1 hl
    obtain ⟨hp, rfl⟩ := ProcessTable.get?_eq_some.1 hget
    have hs : p.Settled := h.settled hp
    obtain ⟨a, p', m', hsend, hsig⟩ := p.sendSignal_ends hs k.memory n value
    refine .inr ⟨p, a, p', m', rfl, hsend, ?_⟩
    have hruns : ∀ pid, k.board.Runs pid → (k.board.put p').Runs pid := fun pid hr =>
      hr.put hp hsig.pid (hsig.running hs)
    -- unless it is lost, the signal changes the record of its target only
    have did : ∀ {k' : Kernel}, a ≠ .ok .lost → k'.board = k.board.put p' → k'.memory = m' →
        k'.clock = k.clock → Did subject (some ⟨p.pid, n, value⟩) .none k k' ∧
          ∀ pid, k.board.Runs pid → k'.board.Runs pid := by
      intro k' ha hb hm hc
      refine ⟨⟨?_, hc⟩, fun pid hr => hb ▸ hruns pid hr⟩
      rw [hb, hm]
      exact (Deed.signal rfl hp live hsig ha).does
    cases a with
    | error e =>
      cases hsig
      rw [put_record_self hp]
      exact ends_pure.2 ⟨.of_board rfl rfl, fun _ => id, fun _ _ => rfl⟩
    | ok sent =>
      rw [ends_bind]
      refine (noteSent_ends p.pid n sent).mono fun _ k₂ ⟨hk₂, hm₂⟩ => ?_
      split
      · next hlost =>
        subst hlost
        cases hsig with
        | @lost wait e hw hk ha hm =>
          have hb : p.status = .blocked := hs.blocked_of_waits (r := .signal)
            (by simp [Process.waits, hw])
          rw [ends_bind, ends_note]
          refine (destroy_ends (k := k₂.noted _) (b := k.board) hk₂.board h hp live
            (.inr ⟨wait, hw, rfl⟩)).mono fun a k' hd => ?_
          obtain ⟨rfl, hd⟩ := hd
          refine ⟨⟨⟨_, .inr ⟨rfl, _, _, rfl⟩, .lost rfl hp live hw hk ha hm ?_⟩,
            hd.clock.trans hk₂.clock⟩, fun pid => hd.runs rfl hp (by simp [hb]), by simp⟩
          have hwakes := hd.wakes
          have hmem : (k₂.noted (.signalLost p.pid)).memory = k.memory := hm₂
          rw [hmem] at hwakes
          exact hwakes
      · next hlost =>
        obtain ⟨hd, hr⟩ := did (fun he => hlost (Except.ok.inj he)) hk₂.board hm₂ hk₂.clock
        exact ends_pure.2 ⟨hd, hr, by simp⟩

/-! ## Returning to user code -/

theorem noteDelivery_ends (pid : Pid) (d : Delivery) :
    Ends (noteDelivery pid d) k fun _ k' => SameBoard k k' ∧ k'.memory = k.memory := by
  cases d with
  | handled | unwritable => exact ends_note.2 ⟨⟨rfl, rfl⟩, rfl⟩
  | none | ignored | fatal => exact ends_pure.2 ⟨.refl k, rfl⟩

/-- Delivering a signal to a running process does to its record and the memory what it should. -/
theorem deliver_ends (h : k.board.Sound) (hp : k.board.procs.at? p.pid.slot = some p)
    (run : p.status = .running) :
    Ends (deliver p.pid) k fun a k' => ∃ d q, a = .ok d ∧
      p.deliver k.memory = .ok (d, q, k'.memory) ∧ k'.board = k.board.put q ∧
      k'.clock = k.clock := by
  have hl : k.procs.lookup p.pid = .ok p := ProcessTable.lookup_of_live hp (by simp [run])
  rw [deliver, ends_bind, ends_ofLive]
  obtain ⟨d, q, m, hd⟩ := Process.deliver_ends (h.settled hp) k.memory
  refine .inr ⟨p, .ok d, q, m, hl, by simp [signalsEnabled, hd, Except.map], ?_⟩
  dsimp only
  rw [ends_bind]
  refine (noteDelivery_ends p.pid d).mono fun _ k' ⟨hk', hm⟩ => ends_pure.2 ?_
  exact ⟨d, q, rfl, hm ▸ hd, hk'.board, hk'.clock⟩

/-- What is answered to a process that goes back to user code, and what becomes of it: it dies of
the signal that is delivered, or it resumes as the delivery left it. -/
inductive GoesBack (k : Kernel) (p : Process) : TrapReturn → Kernel → Prop where
  | killed {d : Delivery} {q p' : Process} {m : Memory} {k' : Kernel}
      (hd : p.deliver k.memory = .ok (d, q, m)) (fatal : d.isFatal = true)
      (after : k'.procs.get? p.pid = some p') (dying : p'.status = .dying) : GoesBack k p .killed k'
  | resumes {d : Delivery} {q : Process} {m : Memory} {k' : Kernel}
      (hd : p.deliver k.memory = .ok (d, q, m)) (fatal : d.isFatal = false)
      (after : k'.procs.get? p.pid = some q) : GoesBack k p (.resume q.frame) k'

/-- How a process goes on after a delivery, which left it with the record `q` in the kernel `k₁`: it
has to end and is destroyed, or it resumes. -/
inductive Proceeds (k₁ : Kernel) (q : Process) (d : Delivery) : TrapReturn → Kernel → Prop where
  | killed {k' : Kernel} (fatal : d.isFatal = true) (hk : Destroyed k₁.board q q k₁ k') :
      Proceeds k₁ q d .killed k'
  | resumes (fatal : d.isFatal = false) : Proceeds k₁ q d (.resume q.frame) k₁

/-- On the way back to user code a signal is delivered to a running process, and then it goes on. -/
theorem trapReturn_proceeds (h : k.board.Sound) (hp : k.board.procs.at? p.pid.slot = some p)
    (run : p.status = .running) :
    Ends (trapReturn p.pid) k fun a k' => ∃ d q k₁, p.deliver k.memory = .ok (d, q, k₁.memory) ∧
      k₁.board = k.board.put q ∧ k₁.clock = k.clock ∧ Proceeds k₁ q d a k' := by
  rw [trapReturn, ends_bind]
  refine (deliver_ends h hp run).mono fun a k₁ ⟨d, q, ha, hd, hb, hc⟩ => ?_
  have own : p.Own q := .deliver hd
  have hs := own.sameStanding
  have hq : k₁.board.procs.at? q.pid.slot = some q := hb ▸ ProcessTable.at?_put_self
  have fatal : d.isFatal = true → ∀ n,
      Ends (do note (.signalFatal p.pid n); kill p.pid .signal; return .killed) k₁
        (Proceeds k₁ q d) := by
    intro hfatal n
    have h₁ : k₁.board.Sound := hb ▸ h.own hp run own
    rw [ends_bind, ends_note, ends_bind, ← hs.pid]
    refine (kill_ends (k := k₁.noted _) h₁ hq (by simp [hs.status, run]) .signal).mono
      fun _ k' hk => ends_pure.2 (.killed hfatal ⟨hk.wakes, hk.clock⟩)
  have hget : k₁.procs.get? p.pid = some q := ProcessTable.get?_eq_some.2 ⟨hs.pid ▸ hq, hs.pid⟩
  have proceeds : ∀ {a : TrapReturn} {k' : Kernel}, Proceeds k₁ q d a k' →
      ∃ d q k₁, p.deliver k.memory = .ok (d, q, k₁.memory) ∧ k₁.board = k.board.put q ∧
        k₁.clock = k.clock ∧ Proceeds k₁ q d a k' := fun hk => ⟨d, q, k₁, hd, hb, hc, hk⟩
  subst ha
  cases d with
  | fatal n => exact (fatal rfl n).mono fun _ _ => proceeds
  | unwritable n stack => exact (fatal rfl n).mono fun _ _ => proceeds
  | none | ignored | handled =>
    dsimp only
    rw [ends_bind, ends_get, hget]
    exact ends_pure.2 (proceeds (.resumes rfl))

/-- A running process goes back to user code, or is destroyed. -/
theorem trapReturn_ends (h : k.board.Sound) (hp : k.board.procs.at? p.pid.slot = some p)
    (run : p.status = .running) :
    Ends (trapReturn p.pid) k fun a k' => Did (some p.pid) none .none k k' ∧ k.GoesBack p a k' := by
  refine (trapReturn_proceeds h hp run).mono fun a k' ⟨d, q, k₁, hd, hb, hc, hcases⟩ => ?_
  have own : p.Own q := .deliver hd
  have hs := own.sameStanding
  cases hcases with
  | killed hfatal hk =>
    obtain ⟨hm, hlocks⟩ := Process.deliver_of_isFatal hd hfatal
    have hwakes := hk.wakes
    rw [hm, hlocks, hb] at hwakes
    refine ⟨⟨⟨_, .inr ⟨rfl, _, _, rfl⟩, .fatal (hs.pid ▸ rfl) hp run own hwakes⟩,
      hk.clock.trans hc⟩, ?_⟩
    have hdead : k'.procs.get? q.pid = some { q.bury with futex := none } :=
      ProcessTable.get?_eq_some.2 ⟨hk.dying rfl, rfl⟩
    rw [hs.pid] at hdead
    exact .killed hd hfatal hdead rfl
  | resumes hfatal =>
    have hq : k'.board.procs.at? q.pid.slot = some q := hb ▸ ProcessTable.at?_put_self
    refine ⟨⟨hb ▸ (Deed.own hp run own).does, hc⟩, .resumes hd hfatal ?_⟩
    exact ProcessTable.get?_eq_some.2 ⟨hs.pid ▸ hq, hs.pid⟩

/-- Setting the result of a call changes the registers of the caller. -/
theorem setReturn_ends (hp : k.procs.at? p.pid.slot = some p) (value : UInt64) :
    Ends (setReturn p.pid value) k fun _ k' =>
      k' = { k with procs := k.procs.put { p with frame := p.frame.setReturn value } } := by
  rw [setReturn, ends_modify, ProcessTable.update_eq_put (ProcessTable.get?_pid hp) rfl]

end Kernel

end SyncKernel
