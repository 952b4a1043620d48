import SyncKernel.Proofs.Reachable

/-!
# Senders and receivers meet

A process that waits to send and a process that waits for its message never coexist: whichever
comes second finds the other and takes or hands over the message. Hence a sweep has nothing to
deliver, it only ends overdue calls (`Lapses.lapsed`), and a receive returns at once exactly if
somebody waits to send to the caller, with the message of the one in the lowest slot
(`Kernel.syscall_receive_meets`).
-/

namespace SyncKernel

namespace Process

/-- What a sweep at time `now` may make of the record `p`: it ends an overdue call on messages with
an error. -/
inductive Lapsed (now : Millis) (p : Process) : Process → Prop where
  /-- No call is ended. -/
  | same : Lapsed now p p
  /-- A receive is ended at its deadline. -/
  | expired (hr : p.Receives) (late : deadlineElapsed p.receive.deadline now = true) :
      Lapsed now p p.expired
  /-- A waiting send is ended because its target is gone. -/
  | forsaken (hb : p.status = .blocked) (hs : p.send.sending = true) :
      Lapsed now p (p.unsent Errno.noSuchProcess.toWord)
  /-- A waiting send is ended at its deadline. -/
  | gaveUp (hb : p.status = .blocked) (hs : p.send.sending = true)
      (late : deadlineElapsed p.send.deadline now = true) :
      Lapsed now p (p.unsent Errno.timedOut.toWord)

/-- The registers of a process ask for a receive with a timeout, if any. -/
def AsksToReceive (p : Process) (timeout : Option Millis) : Prop :=
  (Syscall.ofNumber? p.frame.callNumber.toNat = some .receive ∧ timeout = none) ∨
    (Syscall.ofNumber? p.frame.callNumber.toNat = some .receiveTimeout ∧
      timeout = some p.frame.callArgs.a2)

instance (p : Process) (timeout : Option Millis) : Decidable (p.AsksToReceive timeout) :=
  inferInstanceAs (Decidable (_ ∧ _ ∨ _ ∧ _))

/-- A call that is over is ended by a sweep. -/
theorem Overdue.lapsed {t : ProcessTable} {now : Millis} {p p' : Process}
    (h : p.Overdue t now p') : p.Lapsed now p' := by
  cases h with
  | expired hr late => exact .expired hr late
  | forsaken hs _ => exact .forsaken hs.1 hs.2.1
  | gaveUp hs _ late => exact .gaveUp hs.1 hs.2.1 late

end Process

namespace Board

variable {b b' : Board} {p q : Process} {now : Millis} {i : Fin slotCount}

/-- A sweep leaves a record or ends the call in which its process is blocked. -/
theorem Lapses.lapsed (ms : Lapses now b b') (hp : b.procs.at? i = some p) :
    ∃ p', b'.procs.at? i = some p' ∧ p.Lapsed now p' := by
  obtain hp' | ⟨p', hp', ho⟩ := Lapses.at?_cases ms hp
  · exact ⟨p, hp', .same⟩
  · exact ⟨p', hp', ho.lapsed⟩

/-- A message that passes to a running process is that of the waiting sender in the lowest slot.
Both parties are finished: the sender with 0, the receiver with the word of the message. -/
theorem Pass.fetched {sender : Pid} {value : UInt64} (m : Pass sender p.pid value b b')
    (hp : b.procs.at? p.pid.slot = some p) (run : p.status = .running) :
    ∃ s, b.procs.at? s.pid.slot = some s ∧ s.SendsTo p.pid ∧
      (∀ j, j < s.pid.slot → ∀ q, b.procs.at? j = some q → ¬ q.SendsTo p.pid) ∧
      s.pid = sender ∧ s.send.message.value = value ∧
      b'.procs.at? s.pid.slot = some (s.unsent 0) ∧
      (∃ r, b'.procs.at? p.pid.slot = some r ∧ r.pid = p.pid ∧ r.status = .running ∧
        r.receive.sender = some s.pid ∧ r.receive.value = value) ∧
      ∀ j, s.pid.slot ≠ j → p.pid.slot ≠ j → b'.procs.at? j = b.procs.at? j := by
  generalize hpid : p.pid = pid at m
  cases m with
  | @send _ r _ _ hr wait _ ht _ _ =>
    subst hpid
    rw [ht] at hr
    cases hp.symm.trans hr
    exact absurd wait.1 (by simp [run])
  | @fetch q s hq _ hs wait first hsnd ht hv buffer capacity size perm =>
    subst hpid
    rw [ht] at hq
    cases hp.symm.trans hq
    have hne : p.pid.slot ≠ s.pid.slot := ProcessTable.slot_ne hp hs (by simp [wait.1, run])
    refine ⟨s, hs, wait, first, hsnd, hv, ?_,
      ⟨_, ProcessTable.at?_put_self, rfl, rfl, congrArg some hsnd.symm, rfl⟩, fun j hj hj' => ?_⟩
    · refine (ProcessTable.at?_put_of_ne ?_).trans (ProcessTable.at?_put_self (p := s.unsent 0))
      exact hne
    · refine (ProcessTable.at?_put_of_ne ?_).trans
        (ProcessTable.at?_put_of_ne (p := s.unsent 0) hj)
      exact hj'

/-- A message that passes from a running process goes to one that waits for it, and nobody else is
changed. -/
theorem Pass.delivered {target : Pid} {value : UInt64} (m : Pass p.pid target value b b')
    (hp : b.procs.at? p.pid.slot = some p) (run : p.status = .running) :
    ∃ r, b.procs.at? target.slot = some r ∧ r.pid = target ∧ r.Receives ∧
      (∃ size perm, b'.procs.at? target.slot = some (r.handed p.pid value size perm)) ∧
      ∀ j, target.slot ≠ j → b'.procs.at? j = b.procs.at? j := by
  generalize hpid : p.pid = pid at m
  cases m with
  | @send _ r _ _ hr wait _ ht size perm =>
    subst ht
    exact ⟨r, hr, rfl, wait, ⟨size, perm, ProcessTable.at?_put_self (p := r.handed _ _ _ _)⟩,
      fun j hj => ProcessTable.at?_put_of_ne (p := r.handed _ _ _ _) hj⟩
  | @fetch _ s _ _ hs wait _ hsnd _ _ _ _ _ _ =>
    subst hpid
    rw [hsnd] at hs
    cases hp.symm.trans hs
    exact absurd wait.1 (by simp [run])

/-- A process begins to wait for a message only when nobody waits to send it one. -/
theorem Ask.alone {pid : Pid} (m : Ask now pid none b b') (hq : b.procs.at? i = some q) :
    ¬ q.SendsTo pid := by
  cases m with
  | receive _ hpid _ _ _ _ _ alone => exact hpid ▸ alone i q hq

end Board

namespace Kernel

open Board Step

variable {k : Kernel} {p : Process}

/-- A receive with valid arguments is served at once or blocks its caller. -/
theorem syscall_receive_ends (h : k.board.Sound) (hp : k.board.procs.at? p.pid.slot = some p)
    (run : p.status = .running) {timeout : Option Millis} (asks : p.AsksToReceive timeout)
    (valid : p.MayReceive k.memory p.frame.callArgs.a0 p.frame.callArgs.a1 timeout) :
    Ends (syscall p.pid) k fun o k' =>
      (∃ sender value b, Pass sender p.pid value k.board b ∧ o = .returned value ∧
          Returns p.pid (.ok o) o b k'.board) ∨
        (Ask k.clock.now p.pid none k.board k'.board ∧ o = .blocked) := by
  have hget : k.procs.get? p.pid = some p := ProcessTable.get?_pid hp
  refine (syscall_ends h ⟨p, hp, rfl, run⟩).mono fun o k' ⟨_, ho⟩ => ?_
  obtain ⟨⟨q, hq, hnone⟩, -⟩ | ⟨call, args, a, k₁, ⟨q, hq, hcall, rfl, hserve⟩, -, -, hr⟩ := ho
  · cases hget.symm.trans hq
    obtain ⟨hc, -⟩ | ⟨hc, -⟩ := asks <;> cases hc.symm.trans hnone
  cases hget.symm.trans hq
  have hrcv : serveReceive p.pid p.frame.callArgs timeout
      (k.noted (.call p.pid p.frame.callNumber p.frame.callArgs.toArray.toList)) = .ok a k₁ := by
    obtain ⟨hc, rfl⟩ | ⟨hc, rfl⟩ := asks <;> (cases hc.symm.trans hcall; exact hserve)
  obtain ⟨-, hcases⟩ := (serveReceive_ends (k := k.noted _) h hp run _ timeout).of_eq hrcv
  obtain ⟨e, -, -, hinvalid⟩ | ⟨sender, value, rfl, hpass, -⟩ | ⟨rfl, hask, -⟩ := hcases
  · exact absurd valid hinvalid
  · obtain ⟨rfl, -⟩ := hr.of_some rfl
    exact .inl ⟨sender, value, _, hpass, rfl, hr⟩
  · obtain ⟨ho, hb⟩ := hr.of_none rfl
    cases ho
    exact .inr ⟨hb ▸ hask, rfl⟩

/-- A receive with valid arguments takes the message of the waiting sender in the lowest slot, or
blocks its caller if there is none. -/
theorem syscall_receive_meets (h : k.board.Sound) (hp : k.board.procs.at? p.pid.slot = some p)
    (run : p.status = .running) {timeout : Option Millis} (asks : p.AsksToReceive timeout)
    (valid : p.MayReceive k.memory p.frame.callArgs.a0 p.frame.callArgs.a1 timeout) :
    Ends (syscall p.pid) k fun o k' =>
      (∃ s ∈ k.procs.processes, s.SendsTo p.pid ∧
          (∀ q ∈ k.procs.processes, q.SendsTo p.pid → s.pid.slot ≤ q.pid.slot) ∧
          o = .returned s.send.message.value ∧ k'.procs.get? s.pid = some (s.unsent 0) ∧
          ∃ r, k'.procs.get? p.pid = some r ∧ r.status = .running ∧
            r.receive.sender = some s.pid ∧ r.receive.value = s.send.message.value ∧
            r.frame.get .a0 = s.send.message.value) ∨
        (∀ s ∈ k.procs.processes, ¬ s.SendsTo p.pid) ∧ o = .blocked := by
  refine (syscall_receive_ends h hp run asks valid).mono fun o k' hcases => ?_
  obtain ⟨sender, value, b, hpass, rfl, hr⟩ | ⟨hask, rfl⟩ := hcases
  · obtain ⟨s, hat, hsend, hfirst, -, rfl, hsent, ⟨r, hrat, hrpid, hrun, hsender, hvalue⟩, -⟩ :=
      hpass.fetched hp run
    obtain ⟨-, q, hqat, -, -, hafter, hothers⟩ := hr.of_some rfl
    cases hrat.symm.trans hqat
    have hne : p.pid.slot ≠ s.pid.slot := ProcessTable.slot_ne hp hat (by simp [hsend.1, run])
    have hlow : ∀ q ∈ k.procs.processes, q.SendsTo p.pid → s.pid.slot ≤ q.pid.slot := by
      intro q hq hqs
      obtain ⟨j, hj⟩ := ProcessTable.mem_processes.1 hq
      by_contra hlt
      exact hfirst _ (Fin.not_le.1 hlt) q (h.table.at?_slot hj) hqs
    refine .inl ⟨s, ProcessTable.mem_processes.2 ⟨_, hat⟩, hsend, hlow, rfl,
      ProcessTable.get?_eq_some.2 ⟨(hothers _ hne).trans hsent, rfl⟩, _,
      ProcessTable.get?_eq_some.2 ⟨hafter, hrpid⟩, hrun, hsender, hvalue, ?_⟩
    exact TrapFrame.get_setReturn _ _
  · refine .inr ⟨fun s hs => ?_, rfl⟩
    obtain ⟨j, hj⟩ := ProcessTable.mem_processes.1 hs
    exact hask.alone hj

end Kernel

namespace Run

variable {clock : Clock} {ms : List Moment} {k : Kernel}

/-- In every kernel that a run leads to, no process waits for a message that another one waits to
send it. So a sweep passes no message, and the sends that it ends answer errors; and a receive with
valid arguments returns at once exactly if some process waits to send to the caller, in which case
it takes the message of the one in the lowest slot. -/
theorem no_meeting_missed (run : Run (.boot clock) ms k) :
    (∀ s ∈ k.procs.processes, ∀ t ∈ k.procs.processes, s.SendsTo t.pid → ¬ t.Receives) ∧
    (∃ n k', Kernel.sweepNow k = .ok n k' ∧ ∀ pid p, k.procs.get? pid = some p →
      ∃ p', k'.procs.get? pid = some p' ∧ p.Lapsed k.clock.now p') ∧
    ∀ p ∈ k.procs.processes, p.status = .running → ∀ timeout, p.AsksToReceive timeout →
      p.MayReceive k.memory p.frame.callArgs.a0 p.frame.callArgs.a1 timeout →
      ∃ o k', Kernel.syscall p.pid k = .ok o k' ∧
        ((∃ value, o = .returned value) ↔ ∃ s ∈ k.procs.processes, s.SendsTo p.pid) ∧
        (o = .blocked ↔ ∀ s ∈ k.procs.processes, ¬ s.SendsTo p.pid) ∧
        ∀ s ∈ k.procs.processes, s.SendsTo p.pid →
          (∀ q ∈ k.procs.processes, q.SendsTo p.pid → s.pid.slot ≤ q.pid.slot) →
          o = .returned s.send.message.value ∧
            k'.procs.get? s.pid = some (s.unsent 0) ∧
            ∃ r, k'.procs.get? p.pid = some r ∧ r.status = .running ∧
              r.receive.sender = some s.pid ∧ r.receive.value = s.send.message.value ∧
              r.frame.get .a0 = s.send.message.value := by
  have hs : k.board.Sound := run.sound
  refine ⟨fun s hsp t htp hsend => ?_, ?_, fun p hpm running timeout asks valid => ?_⟩
  · obtain ⟨i, hi⟩ := ProcessTable.mem_processes.1 hsp
    obtain ⟨j, hj⟩ := ProcessTable.mem_processes.1 htp
    exact hs.table.met i j s t hi hj hsend
  · obtain ⟨n, k', hsweep, hl, -⟩ := Kernel.sweepNow_ends hs
    refine ⟨n, k', hsweep, fun pid p hget => ?_⟩
    obtain ⟨hp, rfl⟩ := ProcessTable.get?_eq_some.1 hget
    obtain ⟨p', hp', hlapsed⟩ := hl.lapsed hp
    have hpid : p'.pid = p.pid := by
      cases hlapsed <;> rfl
    exact ⟨p', ProcessTable.get?_eq_some.2 ⟨hp', hpid⟩, hlapsed⟩
  · obtain ⟨i, hi⟩ := ProcessTable.mem_processes.1 hpm
    have hp : k.board.procs.at? p.pid.slot = some p := hs.table.at?_slot hi
    obtain ⟨o, k', hstep, hcases⟩ := Kernel.syscall_receive_meets hs hp running asks valid
    refine ⟨o, k', hstep, ?_⟩
    obtain ⟨s, hsm, hsend, hlow, rfl, hsent, hgot⟩ | ⟨hnone, rfl⟩ := hcases
    · refine ⟨⟨fun _ => ⟨s, hsm, hsend⟩, fun _ => ⟨_, rfl⟩⟩,
        ⟨nofun, fun hnone => absurd hsend (hnone s hsm)⟩, fun s' hsm' hsend' hlow' => ?_⟩
      -- the two are in the same slot
      obtain ⟨j, hj⟩ := ProcessTable.mem_processes.1 hsm
      obtain ⟨j', hj'⟩ := ProcessTable.mem_processes.1 hsm'
      have hslot : s.pid.slot = s'.pid.slot :=
        Fin.le_antisymm (hlow s' hsm' hsend') (hlow' s hsm hsend)
      have hat := hs.table.at?_slot hj
      rw [hslot, hs.table.at?_slot hj'] at hat
      cases hat
      exact ⟨rfl, hsent, hgot⟩
    · exact ⟨⟨nofun, fun ⟨s, hsm, hsend⟩ => absurd hsend (hnone s hsm)⟩,
        ⟨fun _ => hnone, fun _ => rfl⟩, fun s hsm hsend => absurd hsend (hnone s hsm)⟩

/-- A process waits to send the word 7 to another one, which is then chosen to run and asks for a
message. -/
def sendThenReceive : List Event :=
  [.spawn 0 (((((TrapFrame.newUser 0x1000 0x2000).set .a7 1102).set .a0 257).set .a1 7).set .a5 9),
    .spawn 1 ((TrapFrame.newUser 0x1000 0x2000).set .a7 1101), .schedule 0,
    .syscall (.ofSlot 1 0), .schedule 0]

/-- The process that asks for a message gets that of the process that waits. -/
theorem no_meeting_missed_of_sendThenReceive :
    ∃ ms k, play (.boot default) sendThenReceive = some (ms, k) ∧
      ∃ p ∈ k.procs.processes, ∃ o k', Kernel.syscall p.pid k = .ok o k' ∧ o = .returned 7 := by
  have hplay : (play (.boot default) sendThenReceive).any (fun r =>
      ∃ p ∈ r.2.procs.processes, p.status = .running ∧ p.AsksToReceive none ∧
        p.MayReceive r.2.memory p.frame.callArgs.a0 p.frame.callArgs.a1 none ∧
        ∃ s ∈ r.2.procs.processes, s.SendsTo p.pid ∧ s.send.message.value = 7 ∧
          ∀ q ∈ r.2.procs.processes, q.SendsTo p.pid → s.pid.slot ≤ q.pid.slot) = true := by
    decide +kernel
  obtain ⟨⟨ms, k⟩, h, hk⟩ := (Option.any_eq_true _ _).1 hplay
  obtain ⟨p, hp, run, asks, valid, s, hs, hsend, hvalue, hlow⟩ := of_decide_eq_true hk
  obtain ⟨o, k', hstep, -, -, hmeet⟩ :=
    (no_meeting_missed (Run.of_play h)).2.2 p hp run none asks valid
  exact ⟨ms, k, h, p, hp, o, k', hstep, hvalue ▸ (hmeet s hs hsend hlow).1⟩

end Run

end SyncKernel
