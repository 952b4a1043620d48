import SyncKernel.Proofs.Choosing
import SyncKernel.Proofs.SendCalls

/-!
# Deadlines and sweeps

A process that waits to pass or to get a message may have a deadline (`Process.Due`). A sweep leaves
no deadline behind that has passed (`Population.sweepSlots_late`), and the choice of a process by a
processor leaves no such receive (`Kernel.schedule_late`). The timer does not sweep each time it
interrupts. That no deadline waits for longer than the interval between sweeps all the same rests on
`Kernel.Punctual`: every deadline is later than the last sweep. A deadline that begins is later than
now (`Effect.due`), and now is not earlier than the last sweep as long as the clock goes
forward; so the invariant holds along every run whose clock does not wrap (`Run.punctual`).
-/

namespace SyncKernel

open Board Step

/-- The process is blocked in a call on messages that is over at `d`. -/
def Process.Due (p : Process) (d : Millis) : Prop :=
  (p.Receives ∧ p.receive.deadline = some d) ∨ (p.Sends ∧ p.send.deadline = some d)

/-- A process with a deadline is blocked. -/
theorem Process.Due.blocked {p : Process} {d : Millis} (h : p.Due d) : p.status = .blocked := by
  rcases h with ⟨hr, -⟩ | ⟨hs, -⟩
  · exact hr.1
  · exact hs.1

/-- A deadline has not passed while it is later than now. -/
theorem deadlineElapsed_eq_false {d now : Millis} :
    deadlineElapsed (some d) now = false ↔ now < d := by
  simp [deadlineElapsed]

/-- A deadline past the last time there is becomes that time. -/
theorem toNat_deadlineAfter (now timeout : Millis) :
    (deadlineAfter now timeout).toNat = min (now.toNat + timeout.toNat) (2 ^ 64 - 1) := by
  have hsize : UInt64.size - 1 = 2 ^ 64 - 1 := rfl
  rw [deadlineAfter, UInt64.toNat_ofNat', hsize]
  exact Nat.mod_eq_of_lt (by omega)

/-- The time at which a call gives up is later than now, unless it is the last one there is. -/
theorem lt_deadlineAfter {now timeout : Millis} (h : timeout ≠ 0) :
    now < deadlineAfter now timeout ∨ (deadlineAfter now timeout).toNat = 2 ^ 64 - 1 := by
  have ht : timeout.toNat ≠ 0 := fun h0 => h (UInt64.toNat_inj.1 h0)
  rw [UInt64.lt_iff_toNat_lt, toNat_deadlineAfter]
  omega

/-! ## What a sweep leaves behind -/

namespace Board

variable {b b' : Board} {p p' : Process} {now : Millis} {i : Fin slotCount}

/-- What holds of a record and of all runnable processes still holds of the record after calls were
ended. -/
theorem Lapses.at?_of_runnable {P : Process → Prop} (ms : Lapses now b b') (h : b.Sound)
    (hrun : ∀ p, p.status = .runnable → P p) (hP : ∀ p, b.procs.at? i = some p → P p) :
    ∀ p, b'.procs.at? i = some p → P p := by
  intro p' hp'
  obtain ⟨p, hp, -⟩ := (ms.moves.drifts h).exists_before hp'
  rcases Lapses.at?_cases ms hp with hp₁ | ⟨p₁, hp₁, ho⟩
  · cases hp'.symm.trans hp₁
    exact hP p' hp
  · cases hp'.symm.trans hp₁
    exact hrun p' ho.runnable

end Board

namespace Population

variable {w w' w₁ : Population} {b : Board} {p : Process} {now : Millis} {i : Fin slotCount}

/-- Looking at a slot in a sweep leaves no deadline there that has passed. -/
theorem sweepSlot_late {ended : Bool} (h : b.Sound) (hw : b.procs = w.procs)
    (hs : w.sweepSlot now i = .ok (ended, w')) :
    ∀ p, w'.procs.at? i = some p → ∀ d, p.Due d → now < d := by
  intro p hp d hd
  have placed : w.procs.Placed := hw ▸ h.table.placed
  -- a record that is runnable has no deadline
  have awake : ∀ {t : ProcessTable} {q : Process}, w'.procs = t.put q → q.pid.slot = i →
      q.status = .runnable → now < d := by
    intro t q hput hi hq
    rw [hput, ← hi, ProcessTable.at?_put_self] at hp
    cases hp
    exact absurd hd.blocked (by simp [hq])
  obtain ⟨rfl, hlate⟩ | ⟨q, hq, he⟩ | ⟨w₁, q, word, hw₁, hq, hb, hprocs⟩ := sweepSlot_ok hs
  · obtain ⟨hr, hsnd⟩ := hlate p hp
    rcases hd with ⟨hrcv, hdl⟩ | ⟨hsends, hdl⟩
    · have hnot := hr hrcv
      rw [hdl] at hnot
      exact deadlineElapsed_eq_false.1 hnot
    · have hnot := (hsnd hsends).resolve_left
        ((h.table.settled i p (hw ▸ hp)).not_receives hsends)
      rw [hdl] at hnot
      exact deadlineElapsed_eq_false.1 hnot
  · obtain ⟨-, hprocs, -⟩ := expireReceive_ok he
    exact awake hprocs (placed i q hq) rfl
  · exact awake hprocs (hw₁.placed (fun h => h.pid) placed i q hq) rfl

/-- A sweep leaves no deadline behind that has passed. -/
theorem sweepSlots_late (slots : List (Fin slotCount)) :
    ∀ {w : Population} {b : Board} {n : Nat}, b.Sound → b.procs = w.procs →
      sweepSlots now slots w = .ok (n, w') →
        ∀ i ∈ slots, ∀ p, w'.procs.at? i = some p → ∀ d, p.Due d → now < d := by
  induction slots with
  | nil => exact fun _ _ _ i hi => nomatch hi
  | cons j rest ih =>
    intro w b n h hw hs i hi
    obtain ⟨⟨ended, w₁⟩, hslot, hs⟩ := Except.bind_eq_ok.1 hs
    obtain ⟨⟨n', w₂⟩, hrest, hs⟩ := Except.bind_eq_ok.1 hs
    cases hs
    obtain ⟨_, _, hslot', hl⟩ := sweepSlot_lapses now h hw j
    cases hslot.symm.trans hslot'
    have h₁ : Board.Sound { b with procs := w₁.procs } := hl.moves.sound h
    rcases List.mem_cons.1 hi with rfl | hi
    · -- what the sweep does to other slots ends calls only
      obtain ⟨_, _, hrest', hl'⟩ := sweepSlots_lapses now rest h₁ rfl
      cases hrest.symm.trans hrest'
      refine hl'.at?_of_runnable h₁ (P := fun p => ∀ d, p.Due d → now < d) ?_
        (sweepSlot_late h hw hslot)
      intro p hp d hd
      exact absurd hd.blocked (by simp [hp])
    · exact ih h₁ rfl hrest i hi

/-- A processor that ends overdue receives leaves none behind. -/
theorem expireSlots_late (slots : List (Fin slotCount)) :
    ∀ {w : Population} {b : Board} {n : Nat}, b.Sound → b.procs = w.procs →
      expireSlots now slots w = .ok (n, w') →
        ∀ i ∈ slots, ∀ p, w'.procs.at? i = some p → p.Receives →
          deadlineElapsed p.receive.deadline now = false := by
  induction slots with
  | nil => exact fun _ _ _ i hi => nomatch hi
  | cons j rest ih =>
    intro w b n h hw hs i hi
    obtain ⟨n', w₁, hrest, hslot⟩ := expireSlots_ok hs
    have hfirst : Board.Sound { b with procs := w₁.procs } ∧
        ∀ p, w₁.procs.at? j = some p → p.Receives →
          deadlineElapsed p.receive.deadline now = false := by
      rcases hslot with ⟨rfl, hlate, -⟩ | ⟨q, hq, hr, late, he, -⟩
      · exact ⟨by rwa [← hw], hlate⟩
      · have hj : q.pid.slot = j := h.table.placed j q (hw ▸ hq)
        have hq' : b.procs.at? q.pid.slot = some q := hw ▸ hj ▸ hq
        obtain ⟨_, he', hl⟩ := expireReceive_lapse now hw hq' hr late
        cases he.symm.trans he'
        refine ⟨hl.sound h, fun p hp hrcv => ?_⟩
        obtain ⟨-, hprocs, -⟩ := expireReceive_ok he
        have hself : w₁.procs.at? q.expired.pid.slot = some q.expired :=
          hprocs ▸ ProcessTable.at?_put_self
        rw [← hj] at hp
        cases hp.symm.trans hself
        cases hrcv.1
    obtain ⟨h₁, hlate⟩ := hfirst
    rcases List.mem_cons.1 hi with rfl | hi
    · obtain ⟨_, _, hrest', hl'⟩ := expireSlots_lapses now rest h₁ rfl
      cases hrest.symm.trans hrest'
      refine hl'.at?_of_runnable h₁
        (P := fun p => p.Receives → deadlineElapsed p.receive.deadline now = false) ?_ hlate
      intro p hp hr
      exact absurd hr.1 (by simp [hp])
    · exact ih h₁ rfl hrest i hi

/-! ## What a call that blocks leaves behind -/

/-- A receive that blocks its caller has put it to wait. -/
theorem receive_blocked {buffer capacity : UInt64} {timeout : Option Millis} {pid : Pid}
    (h : w.receive pid buffer capacity timeout now = .ok (.ok .blocked, w')) :
    timeout ≠ some 0 ∧ ∃ p, w.procs.get? pid = some p ∧ w'.procs = w.procs.put { p with
      receive :=
        { receiving := true, deadline := timeout.map (deadlineAfter now), buffer, capacity }
      status := .blocked } := by
  unfold receive at h
  split at h
  · cases h
  next ht =>
  split at h
  · cases h
  next p hp =>
  refine ⟨ht, p, (ProcessTable.lookup_eq_ok.1 hp).1, ?_⟩
  dsimp only at h
  split at h
  · cases h
  split at h
  · cases h
    rfl
  -- a sender that waits is left alone, or the receive does not block
  obtain ⟨⟨o, w₁⟩, ha, h⟩ := Except.bind_eq_ok.1 h
  obtain ⟨hne, rfl⟩ | ⟨rfl, -⟩ := attempt_ok ha
  · dsimp only at h
    rw [if_neg hne] at h
    cases h
    rfl
  · dsimp only at h
    rw [if_pos rfl] at h
    split at h
    · obtain ⟨w₂, -, h⟩ := Except.bind_eq_ok.1 h
      split at h <;> cases h
    · obtain ⟨w₂, -, h⟩ := Except.bind_eq_ok.1 h
      split at h <;> cases h

/-- A send that blocks its caller has put it to wait. -/
theorem sendTimeout_blocked {pid target : Pid} {msg : Message} {timeout : Millis}
    (h : w.sendTimeout pid target msg timeout now = .ok (.ok .blocked, w')) :
    timeout ≠ 0 ∧ ∃ p, w.procs.get? pid = some p ∧ w'.procs = w.procs.put { p with
      send := ⟨true, some target, msg, some (deadlineAfter now timeout)⟩
      status := .blocked } := by
  unfold sendTimeout at h
  split at h
  · cases h
  next ht =>
  split at h
  · cases h
  split at h
  · cases h
  obtain ⟨⟨o, w₁⟩, ha, h⟩ := Except.bind_eq_ok.1 h
  obtain ⟨hne, rfl⟩ | ⟨rfl, -⟩ := attempt_ok ha
  · cases o with
    | delivered => exact absurd rfl hne
    | targetGone => cases h
    | notReady =>
      dsimp only at h
      split at h
      · cases h
      · next p hp =>
        cases h
        exact ⟨ht, p, (ProcessTable.lookup_eq_ok.1 hp).1, rfl⟩
  · cases h

end Population

/-- The timeout that the arguments of a system call give, if it is one with a timeout. -/
def Syscall.timeout? (args : SyscallArgs) : Syscall → Option Millis
  | .sendTimeout => some args.a5
  | .receiveTimeout => some args.a2
  | _ => none

/-- At time `now`, the process has just blocked in a call on messages. -/
structure Process.Asks (now : Millis) (call : Syscall) (args : SyscallArgs) (p : Process) :
    Prop where
  sends : p.Sends ↔ call.sends = true
  receives : p.Receives ↔ call.receives = true
  timeout : call.timeout? args ≠ some 0
  due : ∀ d, p.Due d ↔ ∃ timeout, call.timeout? args = some timeout ∧ deadlineAfter now timeout = d

namespace Kernel

variable {k k' k₁ : Kernel} {pid : Pid} {call : Syscall} {args : SyscallArgs}

/-- A receive that blocks its caller. -/
theorem serveReceive_blocked (h : k.board.Sound) (hr : k.board.Runs pid) {timeout : Option Millis}
    (hcall : call = .receive ∧ timeout = none ∨ call = .receiveTimeout ∧ timeout = some args.a2)
    (hs : serveReceive pid args timeout k = .ok (.ok .blocked) k') :
    ∃ p, k'.procs = k.procs.put p ∧ p.pid = pid ∧ p.Asks k.clock.now call args := by
  obtain ⟨p, hp, rfl, run⟩ := hr
  have hleaves : Leaves (serveReceive p.pid args timeout) k fun a k' => a = .ok .blocked →
      ∃ w, k.receive p.pid args.a0 args.a1 timeout k.clock.now = .ok (.ok .blocked, w) ∧
        k'.procs = w.procs := by
    rw [serveReceive, leaves_bind, leaves_get, leaves_bind, leaves_ofPopulation]
    intro a w hw
    rw [leaves_pure]
    intro ha
    cases a with
    | error => cases ha
    | ok o =>
      cases o with
      | done => cases ha
      | blocked => exact ⟨w, hw, rfl⟩
  obtain ⟨w, hw, hk'⟩ := hleaves _ _ hs rfl
  obtain ⟨ht, q, hq, hprocs⟩ := Population.receive_blocked hw
  cases (ProcessTable.get?_pid hp).symm.trans hq
  refine ⟨_, hk'.trans hprocs, rfl, ?_⟩
  have hsend : p.send.sending = false := (h.settled hp).sending_eq_false (by simp [run])
  rcases hcall with ⟨rfl, rfl⟩ | ⟨rfl, rfl⟩
  · constructor <;>
      simp [Process.Sends, Process.Receives, Process.Due, Syscall.sends, Syscall.receives,
        Syscall.timeout?, hsend]
  · constructor <;>
      simp [Process.Sends, Process.Receives, Process.Due, Syscall.sends, Syscall.receives,
        Syscall.timeout?, hsend, show args.a2 ≠ 0 from fun h0 => ht (congrArg some h0)]

/-- A send that blocks its caller. -/
theorem serveSendTimeout_blocked (h : k.board.Sound) (hr : k.board.Runs pid)
    (hs : serveSendTimeout pid args k = .ok (.ok .blocked) k') :
    ∃ p, k'.procs = k.procs.put p ∧ p.pid = pid ∧ p.Asks k.clock.now .sendTimeout args := by
  obtain ⟨p, hp, rfl, run⟩ := hr
  have hleaves : Leaves (serveSendTimeout p.pid args) k fun a k' => a = .ok .blocked →
      ∃ target w, k.sendTimeout p.pid target (.ofArgs args) args.a5 k.clock.now =
        .ok (.ok .blocked, w) ∧ k'.procs = w.procs := by
    unfold serveSendTimeout
    split
    · exact leaves_pure.2 nofun
    · next target _ =>
      rw [leaves_bind, leaves_get, leaves_bind, leaves_ofPopulation]
      intro a w hw
      rw [leaves_pure]
      intro ha
      cases a with
      | error => cases ha
      | ok o =>
        cases o with
        | done => cases ha
        | blocked => exact ⟨target, w, hw, rfl⟩
  obtain ⟨target, w, hw, hk'⟩ := hleaves _ _ hs rfl
  obtain ⟨ht, q, hq, hprocs⟩ := Population.sendTimeout_blocked hw
  cases (ProcessTable.get?_pid hp).symm.trans hq
  refine ⟨_, hk'.trans hprocs, rfl, ?_⟩
  have hrcv : p.receive.receiving = false := (h.settled hp).receiving_eq_false (by simp [run])
  constructor <;>
    simp [Process.Sends, Process.Receives, Process.Due, Syscall.sends, Syscall.receives,
      Syscall.timeout?, hrcv, ht]

/-- A call on messages that blocks its caller changes the record of the caller only. -/
theorem Answers.asks (h : k.board.Sound) (hr : k.board.Runs pid)
    (ans : k.Answers pid call args (.ok .blocked) k₁)
    (hc : call.sends = true ∨ call.receives = true) :
    ∃ p, k₁.procs = k.procs.put p ∧ p.pid = pid ∧ p.Asks k.clock.now call args := by
  obtain ⟨q, -, -, -, hserve⟩ := ans
  cases call with
  | sendTimeout => exact serveSendTimeout_blocked (k := k.noted _) h hr hserve
  | receive => exact serveReceive_blocked (k := k.noted _) h hr (.inl ⟨rfl, rfl⟩) hserve
  | receiveTimeout => exact serveReceive_blocked (k := k.noted _) h hr (.inr ⟨rfl, rfl⟩) hserve
  | trySend =>
    have hleaves : ∀ k₀, Leaves (serveTrySend pid args) k₀ fun a _ => a ≠ .ok .blocked := by
      intro k₀
      unfold serveTrySend
      split
      · exact leaves_pure.2 nofun
      · rw [leaves_bind, leaves_ofPopulation]
        intro a w _
        cases a <;> exact leaves_pure.2 nofun
    exact absurd rfl (hleaves _ _ _ hserve)
  | _ => simp [Syscall.sends, Syscall.receives] at hc

/-! ## Sweeps and the clock -/

/-- A processor that asks for a process leaves no receive behind whose deadline has passed. -/
theorem schedule_late (h : k.board.Sound) {cpu : Nat} {d : Decision}
    (step : schedule cpu k = .ok d k') :
    ∀ i p, k'.procs.at? i = some p → p.Receives →
      deadlineElapsed p.receive.deadline k.clock.now = false := by
  intro i p hp hr
  obtain ⟨hcpu, n, w, state, he, hchoose, -⟩ := schedule_ok step
  obtain ⟨c, hp₁⟩ := hchoose.blocked hp hr.1
  have hr₁ : Process.Receives { p with cpu := c } := hr
  have hlate := Population.expireSlots_late _ h rfl he i (List.mem_finRange i) _ hp₁ hr₁
  exact hlate

/-- The timer interrupts within an interval from the last sweep and does nothing, or it sweeps. -/
theorem timerTick_cases (h : k.board.Sound) {n : Nat} (step : timerTick k = .ok n k') :
    (k' = k ∧ k.clock.now.toNat - k.lastSweep.toNat < sweepInterval) ∨
      (k'.clock = k.clock ∧ k'.lastSweep = k.clock.now ∧
        ∀ i p d, k'.procs.at? i = some p → p.Due d → k.clock.now < d) := by
  have hleaves : Leaves timerTick k fun _ k' =>
      (k' = k ∧ k.clock.now.toNat - k.lastSweep.toNat < sweepInterval) ∨
        (k'.clock = k.clock ∧ k'.lastSweep = k.clock.now ∧
          ∀ i p d, k'.procs.at? i = some p → p.Due d → k.clock.now < d) := by
    rw [timerTick, leaves_bind, leaves_get]
    split
    · next hthrottle =>
      exact leaves_pure.2 (.inl ⟨rfl, by simpa [sweepEnabled] using hthrottle⟩)
    · rw [leaves_bind, leaves_set, sweepNow, leaves_bind, leaves_get, leaves_ofPopulation]
      refine fun n w hw => .inr ⟨rfl, rfl, fun i p d hp hd => ?_⟩
      exact Population.sweepSlots_late _ h rfl hw i (List.mem_finRange i) p hp d hd
  exact hleaves n k' step

/-- The clock and the time of the last sweep are the same. -/
def SameTimes (k k' : Kernel) : Prop :=
  k'.clock = k.clock ∧ k'.lastSweep = k.lastSweep

/-- What leads on leaves the clock and the time of the last sweep. -/
theorem LeadsTo.sameTimes (h : k.LeadsTo k') : k.SameTimes k' :=
  ⟨h.clock, h.lastSweep⟩

/-- An event that is neither a timer interrupt nor one about the clock changes no times. -/
theorem perform_sameTimes {e : Event} {a : Answer} (h : k.board.Sound)
    (step : e.perform k = .ok a k') :
    e = .timerTick ∨ (∃ ms, e = .advance ms) ∨ (∃ ms, e = .setClock ms) ∨ k.SameTimes k' := by
  have same : ∀ {α : Type} {x : Step α} {f : α → Answer}, e.perform = f <$> x →
      Leaves x k (fun _ k' => k.SameTimes k') → k.SameTimes k' := by
    intro α x f he hx
    have hmap : Leaves (f <$> x) k fun _ k' => k.SameTimes k' := leaves_map.2 hx
    exact hmap a k' (he ▸ step)
  have leads : ∀ {α : Type} {x : Step α} {f : α → Answer}, e.perform = f <$> x → Leads x →
      k.SameTimes k' :=
    fun he hx => same he ((hx k).mono fun _ _ => LeadsTo.sameTimes)
  cases e with
  | timerTick => exact .inl rfl
  | advance ms => exact .inr (.inl ⟨ms, rfl⟩)
  | setClock ms => exact .inr (.inr (.inl ⟨ms, rfl⟩))
  | syscall pid => exact .inr (.inr (.inr (leads rfl (leads_syscall pid))))
  | sendSignal target n value =>
    exact .inr (.inr (.inr (leads rfl (leads_sendSignal target n value))))
  | futexWake address most =>
    exact .inr (.inr (.inr (leads rfl (leads_futexWake address most))))
  | destroy pid => exact .inr (.inr (.inr (leads rfl (leads_destroy pid))))
  | sweep =>
    exact .inr (.inr (.inr (same rfl
      ((leaves_sweepNow h.table.placed).mono fun _ _ => LeadsTo.sameTimes))))
  | spawn space frame =>
    refine .inr (.inr (.inr (same rfl ((leaves_spawn k space frame).mono fun _ k' hk => ?_))))
    obtain ⟨-, -, rfl⟩ | ⟨-, -, -, -, rfl⟩ := hk <;> exact ⟨rfl, rfl⟩
  | reclaim pid =>
    refine .inr (.inr (.inr (same rfl ((leaves_reclaim k pid).mono fun _ k' hk => ?_))))
    obtain ⟨-, -, rfl⟩ | ⟨-, -, -, rfl⟩ := hk <;> exact ⟨rfl, rfl⟩
  | schedule cpu =>
    refine .inr (.inr (.inr (same rfl fun d k' hk => ?_)))
    obtain ⟨-, -, -, -, -, -, -, hclock, hsweep⟩ := schedule_ok hk
    exact ⟨hclock, hsweep⟩
  | trapReturn pid =>
    refine .inr (.inr (.inr (same rfl ((leaves_trapReturn k pid).mono fun _ k' hk => ?_))))
    obtain ⟨a, k₁, hd, hk⟩ := hk
    obtain ⟨-, -, rfl⟩ | ⟨-, -, -, -, -, -, -, -, -, -, -, hclock, hsweep⟩ :=
      leaves_deliver k pid a k₁ hd
    · exact hk.sameTimes
    · exact ⟨hk.clock.trans hclock, hk.lastSweep.trans hsweep⟩
  | registers | memory =>
    exact .inr (.inr (.inr (same rfl (leaves_modify.2 ⟨rfl, rfl⟩))))

end Kernel

/-! ## Every deadline is later than the last sweep -/

namespace Board

variable {b b' b₁ : Board} {p p' : Process} {pid : Pid} {now : Millis}

/-- Every deadline was there before, for the same process. -/
def NoneDue (b b' : Board) : Prop :=
  ∀ i p' d, b'.procs.at? i = some p' → p'.Due d → ∃ p, b.procs.at? i = some p ∧ p.Due d

theorem NoneDue.trans (h : NoneDue b b₁) (h' : NoneDue b₁ b') : NoneDue b b' := by
  intro i p' d hp' hd'
  obtain ⟨q, hq, hdq⟩ := h' i p' d hp' hd'
  exact h i q d hq hdq

/-- Where nobody blocks, no deadline is new. -/
theorem NoneBlocks.noneDue (h : NoneBlocks b b') : NoneDue b b' :=
  fun i p' _ hp' hd => ⟨p', h i p' hp' hd.blocked, hd⟩

/-- Moves bring no new deadline. -/
theorem Drifts.noneDue (hd : Drifts b b') : NoneDue b b' := by
  intro i p' d hp' hdue
  obtain ⟨p, hp, hdrift⟩ := hd.exists_before hp'
  refine ⟨p, hp, ?_⟩
  rcases hdue with ⟨hr, hdl⟩ | ⟨hs, hdl⟩
  · obtain ⟨hr₀, heq⟩ := hdrift.receives hr
    exact .inl ⟨hr₀, heq ▸ hdl⟩
  · obtain ⟨hs₀, heq⟩ := hdrift.begun hs
    exact .inr ⟨hs₀, heq ▸ hdl⟩

end Board

/-- A deadline that a process has after an event it had before, or it began with a call in this
event. -/
theorem Effect.due {k k' : Kernel} {e : Event} {a : Answer} {i : Fin slotCount} {p' : Process}
    {d : Millis} (m : Effect k e a k') (h : k.board.Sound) (allowed : e.Allowed k)
    (hp' : k'.procs.at? i = some p') (hd : p'.Due d) :
    (∃ p, k.board.procs.at? i = some p ∧ p.Due d) ∨
      ∃ timeout, timeout ≠ 0 ∧ deadlineAfter k.clock.now timeout = d := by
  have moved : ∀ {b : Board}, Moves k.clock.now k.board b → NoneDue k.board b :=
    fun hm => (hm.drifts h).noneDue
  cases m with
  | deed _ hdeed _ => exact .inl (moved hdeed.moves i p' d hp' hd)
  | turnover _ _ ht => exact .inl (ht.noneBlocks.noneDue i p' d hp' hd)
  | idle hl hb => exact .inl (moved (hb ▸ hl.moves.tail (.release _ _)) i p' d hp' hd)
  | dispatch hl hdis =>
    exact .inl ((moved (hl.moves.tail (.release _ _))).trans hdis.noneBlocks.noneDue i p' d hp' hd)
  | unknown _ hr => exact .inl (moved (hr.moves _) i p' d hp' hd)
  | @served pid call args a k₁ o _ ans ho _ hr =>
    have returned : NoneDue k₁.board k'.board := ((hr.moves 0).drifts (ho.sound h)).noneDue
    -- a call that blocks its caller changes the record of the caller, and nothing is returned
    have asked : a = .ok .blocked → call.sends = true ∨ call.receives = true →
        (∃ p, k.board.procs.at? i = some p ∧ p.Due d) ∨
          ∃ timeout, timeout ≠ 0 ∧ deadlineAfter k.clock.now timeout = d := by
      rintro rfl hc
      obtain ⟨p, hprocs, -, hasks⟩ := ans.asks h (Kernel.status_eq_running.1 allowed) hc
      obtain ⟨-, hb⟩ := hr.of_none rfl
      have hk' : k'.procs = k.procs.put p := (congrArg Board.procs hb).trans hprocs
      rw [hk'] at hp'
      rcases ProcessTable.at?_put_cases hp' with ⟨-, rfl⟩ | ⟨-, hp⟩
      · obtain ⟨timeout, ht, hdl⟩ := (hasks.due d).1 hd
        exact .inr ⟨timeout, fun h0 => hasks.timeout (h0 ▸ ht), hdl⟩
      · exact .inl ⟨p', hp, hd⟩
    generalize k₁.board = b₁ at ho hr returned
    cases ho with
    | deed _ _ hdeed _ => exact .inl ((moved hdeed.moves).trans returned i p' d hp' hd)
    | refused => exact .inl (returned i p' d hp' hd)
    | sent _ _ hpass | received _ hpass =>
      exact .inl (hpass.noneBlocks.noneDue.trans returned i p' d hp' hd)
    | asksToSend hs _ _ => exact asked rfl (.inl hs)
    | asksToReceive hs _ => exact asked rfl (.inr hs)

/-- The last sweep is not later than now, and every deadline is later than the last sweep, unless it
is the last time there is. -/
structure Kernel.Punctual (k : Kernel) : Prop where
  swept : k.lastSweep ≤ k.clock.now
  due : ∀ i p d, k.procs.at? i = some p → p.Due d → k.lastSweep < d ∨ d.toNat = 2 ^ 64 - 1

/-- The clock does not wrap in the moments of a run. -/
def NoWrap (ms : List Moment) : Prop :=
  ∀ m ∈ ms, ∀ t, m.event = .advance t → m.before.clock.now.toNat + t.toNat < 2 ^ 64

instance (ms : List Moment) : Decidable (NoWrap ms) :=
  decidable_of_iff (∀ m ∈ ms, (match m.event with
      | .advance t => decide (m.before.clock.now.toNat + t.toNat < 2 ^ 64)
      | _ => true) = true) (by
    refine forall₂_congr fun m _ => ?_
    cases m.event <;> simp)

namespace Kernel.Punctual

variable {k k' : Kernel}

/-- At the beginning there is no deadline. -/
theorem boot (clock : Clock) : (Kernel.boot clock).Punctual where
  swept := UInt64.le_refl _
  due _ _ _ h := nomatch h

/-- The clock may go forward. -/
theorem of_clock {clock : Clock} (h : k.Punctual) (hc : k.clock.now ≤ clock.now) :
    Kernel.Punctual { k with clock } where
  swept := UInt64.le_trans h.swept hc
  due := h.due

/-- An event in which the clock does not wrap keeps the invariant. -/
theorem perform {e : Event} {a : Answer} (h : k.Punctual) (sound : k.board.Sound)
    (allowed : e.Allowed k) (step : e.perform k = .ok a k')
    (nowrap : ∀ t, e = .advance t → k.clock.now.toNat + t.toNat < 2 ^ 64) : k'.Punctual := by
  rcases Kernel.perform_sameTimes sound step with rfl | ⟨ms, rfl⟩ | ⟨ms, rfl⟩ | ⟨hclock, hsweep⟩
  · have htick : Leaves Kernel.timerTick k fun _ k' => k'.Punctual := by
      intro n k' hn
      rcases Kernel.timerTick_cases sound hn with ⟨rfl, -⟩ | ⟨hclock, hsweep, hlate⟩
      · exact h
      · refine ⟨?_, fun i p d hp hd => .inl ?_⟩
        · rw [hsweep, hclock]
          exact UInt64.le_refl _
        · rw [hsweep]
          exact hlate i p d hp hd
    have hmap : Leaves (Event.timerTick).perform k fun _ k' => k'.Punctual := leaves_map.2 htick
    exact hmap a k' step
  · have hmap : Leaves (Event.advance ms).perform k fun _ k' => k'.Punctual := by
      refine leaves_map.2 (leaves_modify.2 (h.of_clock ?_))
      have hlt := nowrap ms rfl
      rw [UInt64.le_iff_toNat_le, Clock.advance, UInt64.toNat_add, Nat.mod_eq_of_lt hlt]
      omega
    exact hmap a k' step
  · have hmap : Leaves (Event.setClock ms).perform k fun _ k' => k'.Punctual := by
      refine leaves_map.2 (leaves_modify.2 (h.of_clock ?_))
      unfold Clock.set
      split
      · assumption
      · exact UInt64.le_refl _
    exact hmap a k' step
  · refine ⟨?_, fun i p d hp hd => ?_⟩
    · rw [hclock, hsweep]
      exact h.swept
    · rw [hsweep]
      rcases (Event.effect sound allowed step).due sound allowed hp hd with
        ⟨q, hq, hdq⟩ | ⟨timeout, hne, rfl⟩
      · exact h.due i q d hq hdq
      · exact (lt_deadlineAfter hne).imp_left (UInt64.lt_of_le_of_lt h.swept)

end Kernel.Punctual

/-- No deadline of a run whose clock does not wrap is overdue for longer than since the last sweep.
-/
theorem Run.punctual {clock : Clock} {ms : List Moment} {k : Kernel} (run : Run (.boot clock) ms k)
    (nowrap : NoWrap ms) : k.Punctual := by
  induction run with
  | nil => exact .boot clock
  | @snoc ms k k' e a run allowed step ih =>
    have hms : NoWrap ms := fun m hm => nowrap m (List.mem_append_left _ hm)
    refine (ih hms).perform run.sound allowed step fun t he => ?_
    exact nowrap ⟨k, e, a, k'⟩ (List.mem_append_right _ (List.mem_singleton_self _)) t he

end SyncKernel
