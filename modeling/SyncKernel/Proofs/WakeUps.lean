import SyncKernel.Proofs.Course

/-!
# What ends a blocked call

A process that is blocked before a moment is left blocked by it, is destroyed, or is woken. Waking
sets the result of its call and clears the reason for which it was blocked, and it touches nothing
else that the process can see. `Moment.EndsCall` lists the results with what must have happened for
each: a wake-up of the futex, a message that passed, a deadline that is over, a target that is gone,
a signal. That a message passed is told by the other side too: a send is over only if the target's
record holds the message. `Moment.Sequel` puts the three ways together, and every moment of a run
treats every blocked process in one of them (`Run.blocked_sequel`).
-/

namespace SyncKernel

open Board

/-- A deadline has passed if there is one that is not later than now. -/
theorem deadlineElapsed_eq_true {deadline : Option Millis} {now : Millis} :
    deadlineElapsed deadline now = true ↔ ∃ d, deadline = some d ∧ d ≤ now := by
  simp [deadlineElapsed, Option.any_eq_true]

/-- A process that was blocked still is, in the same call and with the same registers and mask. -/
structure Process.StaysBlocked (p p' : Process) : Prop where
  status : p'.status = .blocked
  frame : p'.frame = p.frame
  receive : p'.receive = p.receive
  send : p'.send = p.send
  futex : p'.futex = p.futex
  wait : p'.signal.wait = p.signal.wait
  mask : p'.signal.mask = p.signal.mask

namespace Moment

/-- Why a call in which the process `p` is blocked ends in a moment, and the word it returns. -/
inductive EndsCall (m : Moment) (p : Process) : UInt64 → Prop where
  /-- The futex it waits on is woken, and the process is among those that are taken. -/
  | futex {address : UInt64} (wait : p.futex = some address) (wake : address ∈ m.futexOp.wakes)
      (taken : p.pid ∈ m.futexOp.woken m.before.futexes.queue) : EndsCall m p 0
  /-- It receives a message, which a process has sent it. -/
  | message {sender : Pid} {value : UInt64} (wait : p.Receives)
      (received : m.Received sender p.pid value) (sent : m.Sent sender p.pid value) :
      EndsCall m p value
  /-- Its receive is over. -/
  | noMessage {deadline : Millis} (wait : p.Receives) (hd : p.receive.deadline = some deadline)
      (late : deadline ≤ m.before.clock.now) : EndsCall m p Errno.timedOut.toWord
  /-- The target receives its message. -/
  | sent {target : Pid} {value : UInt64} (wait : p.SendsTo target)
      (message : p.send.message.value = value) (received : m.Received p.pid target value) :
      EndsCall m p 0
  /-- The target of its message is not there any more. -/
  | noTarget {target : Pid} (wait : p.SendsTo target) (gone : ¬ m.before.procs.Live target) :
      EndsCall m p Errno.noSuchProcess.toWord
  /-- Its send is over, with the target still there. -/
  | notSent {target : Pid} {deadline : Millis} (wait : p.SendsTo target)
      (live : m.before.procs.Live target) (hd : p.send.deadline = some deadline)
      (late : deadline ≤ m.before.clock.now) : EndsCall m p Errno.timedOut.toWord
  /-- It is sent a signal that it waits for, and is told the number. -/
  | signal {wait : SignalWait} {n : Nat} {value : UInt64} (hw : p.signal.wait = some wait)
      (sent : m.request? = some ⟨p.pid, n, value⟩) (hn : n ≠ killSignal)
      (accept : wait.accept.contains n = true)
      (told : m.before.memory.userWrite32 p.space wait.destination (UInt32.ofNat n) =
        .ok m.after.memory) : EndsCall m p 0
  /-- It waits for a signal and is sent the kill signal. -/
  | interrupted {wait : SignalWait} {value : UInt64} (hw : p.signal.wait = some wait)
      (sent : m.request? = some ⟨p.pid, killSignal, value⟩) :
      EndsCall m p Errno.interruptedSystemCall.toWord

/-- The process `p` is sent a signal that it waits for, and cannot be told the number. -/
def CannotTell (m : Moment) (p : Process) : Prop :=
  ∃ wait n value e, p.signal.wait = some wait ∧ m.request? = some ⟨p.pid, n, value⟩ ∧
    n ≠ killSignal ∧ wait.accept.contains n = true ∧
    m.before.memory.userWrite32 p.space wait.destination (UInt32.ofNat n) = .error e

/-- What a moment may make of a process `p` that is blocked before it. -/
inductive Sequel (m : Moment) (p : Process) : Process → Prop where
  /-- It stays blocked. -/
  | stays {p' : Process} (h : p.StaysBlocked p') : Sequel m p p'
  /-- It is destroyed, by request or because of a signal that it cannot be told. -/
  | dies {p' : Process} (dying : p'.status = .dying)
      (why : m.event = .destroy p.pid ∨ m.CannotTell p) : Sequel m p p'
  /-- Its call ends, and a processor may have taken it up already. -/
  | wakes {p' : Process}
      (status : p'.status = .runnable ∨ p'.status = .running ∧
        (∃ cpu, m.event = .schedule cpu) ∧ m.answer = .decided (.run p.pid))
      (cleared : ∀ r, p'.waits r = false)
      (registers : ∀ r, r ≠ .a0 → p'.frame.get r = p.frame.get r)
      (ends : m.EndsCall p (p'.frame.get .a0)) : Sequel m p p'

end Moment

section
variable {m : Moment} {p p' p₁ : Process} {b : Board} {i : Fin slotCount}

theorem Process.StaysBlocked.refl (hb : p.status = .blocked) : p.StaysBlocked p :=
  ⟨hb, rfl, rfl, rfl, rfl, rfl, rfl⟩

/-- A process that does not run keeps everything but its processor when a processor lets go of the
process it ran. -/
theorem Board.released_at? (hp : b.procs.at? i = some p) (hs : p.status ≠ .running)
    (cpu : Fin cpuCount) (chosen : Option (Fin slotCount)) :
    ∃ c, (b.released cpu chosen).procs.at? i = some { p with cpu := c } := by
  rw [Board.released]
  rcases ProcessTable.release_cases (t := b.procs) cpu b.cpus[cpu].current chosen with
    heq | ⟨q, -, hq, -, ⟨run, -, heq⟩ | ⟨-, heq⟩⟩ <;> rw [heq]
  · exact ⟨p.cpu, hp⟩
  · refine ⟨p.cpu, (ProcessTable.at?_put_of_ne ?_).trans hp⟩
    rintro rfl
    cases hq.symm.trans hp
    exact hs run
  · by_cases hi : q.pid.slot = i
    · subst hi
      cases hq.symm.trans hp
      exact ⟨none, ProcessTable.at?_put_self (p := { p with cpu := none })⟩
    · exact ⟨p.cpu, (ProcessTable.at?_put_of_ne (p := { q with cpu := none }) hi).trans hp⟩

/-- What a processor that ends overdue calls and then lets go of the process it ran makes of a
blocked process, apart from the processor in its record. -/
theorem Board.Lapses.released_at? {now : Millis} {b b₁ : Board} (hl : Lapses now b b₁)
    (hp : b.procs.at? i = some p) (hb : p.status = .blocked) (cpu : Fin cpuCount)
    (chosen : Option (Fin slotCount)) :
    ∃ p₁ c, (b₁.released cpu chosen).procs.at? i = some { p₁ with cpu := c } ∧
      (p₁ = p ∨ p.Overdue b.procs now p₁) := by
  obtain hp₁ | ⟨p₁, hp₁, ho⟩ := Lapses.at?_cases hl hp
  · obtain ⟨c, hc⟩ := Board.released_at? hp₁ (by simp [hb]) cpu chosen
    exact ⟨p, c, hc, .inl rfl⟩
  · obtain ⟨c, hc⟩ := Board.released_at? hp₁ (by simp [ho.runnable]) cpu chosen
    exact ⟨p₁, c, hc, .inr ho⟩

namespace Moment

/-- A process whose call ended has left its reason to be blocked, for its record is in order. -/
theorem Sequel.of_ended (sound : m.after.board.Sound)
    (hp' : m.after.board.procs.at? p'.pid.slot = some p')
    (status : p'.status = .runnable ∨ p'.status = .running ∧
      (∃ cpu, m.event = .schedule cpu) ∧ m.answer = .decided (.run p.pid))
    (registers : ∀ r, r ≠ .a0 → p'.frame.get r = p.frame.get r)
    (ends : m.EndsCall p (p'.frame.get .a0)) : m.Sequel p p' := by
  have hs : p'.status ≠ .blocked := by
    rcases status with hs | ⟨hs, -⟩ <;> simp [hs]
  exact .wakes status ((sound.settled hp').waits_eq_false hs) registers ends

/-- A call that is over returns the word of its error. -/
theorem EndsCall.of_overdue (h : p.Overdue m.before.procs m.before.clock.now p') :
    (∀ r, r ≠ .a0 → p'.frame.get r = p.frame.get r) ∧ m.EndsCall p (p'.frame.get .a0) := by
  have hframe : ∃ word, p'.frame = p.frame.setReturn word ∧ m.EndsCall p word := by
    cases h with
    | expired hr late =>
      obtain ⟨d, hd, late⟩ := deadlineElapsed_eq_true.1 late
      exact ⟨_, rfl, .noMessage hr hd late⟩
    | forsaken hs gone => exact ⟨_, rfl, .noTarget hs gone⟩
    | gaveUp hs live late =>
      obtain ⟨d, hd, late⟩ := deadlineElapsed_eq_true.1 late
      exact ⟨_, rfl, .notSent hs live hd late⟩
  obtain ⟨word, hframe, ends⟩ := hframe
  rw [hframe, TrapFrame.get_setReturn]
  exact ⟨fun r hr => TrapFrame.get_setReturn_of_ne _ _ hr, ends⟩

/-- The fate of a blocked process in a deed is one of the three. -/
theorem sequel_of_fate (sound : m.before.board.Sound) (allowed : m.event.Allowed m.before)
    (sound' : m.after.board.Sound) (hp : m.before.board.procs.at? p.pid.slot = some p)
    (hb : p.status = .blocked) (hp' : m.after.board.procs.at? p'.pid.slot = some p')
    (hf : Deed.Fate m.before.board m.before.clock.now m.event.subject? m.request? m.before.memory
      m.after.memory m.futexOp p p') : m.Sequel p p' := by
  have answered : ∀ {word : UInt64}, p'.status = .runnable → p'.frame = p.frame.setReturn word →
      m.EndsCall p word → m.Sequel p p' := by
    intro word hs hframe ends
    refine .of_ended sound' hp' (.inl hs) (fun r hr => ?_) ?_
    · rw [hframe, TrapFrame.get_setReturn_of_ne _ _ hr]
    · rwa [hframe, TrapFrame.get_setReturn]
  cases hf with
  | same => exact .stays (.refl hb)
  | acts run => simp [hb] at run
  | lapsed _ ho =>
    obtain ⟨registers, ends⟩ := EndsCall.of_overdue ho
    exact .of_ended sound' hp' (.inl ho.runnable) registers ends
  | woken _ taken =>
    obtain ⟨address, wake, hmem⟩ := FutexOp.exists_of_mem_woken taken
    have wait := (sound.blocked_of_mem_queue hp hmem).2
    have hzero := (sound.settled hp).answer (by simp [wait])
    refine .of_ended sound' hp' (.inl rfl) (fun _ _ => rfl) ?_
    rw [hzero]
    exact .futex wait wake taken
  | signalled _ hs hsig ha =>
    generalize hmem : m.after.memory = mem' at hsig
    cases hsig with
    | refused | merged | queued => exact .stays ⟨hb, rfl, rfl, rfl, rfl, rfl, rfl⟩
    | interrupted hn _ hw =>
      subst hn
      exact answered rfl rfl (.interrupted hw hs)
    | handed hw hk accept told => exact answered rfl rfl (.signal hw hs hk accept (hmem ▸ told))
    | lost => exact absurd rfl ha
  | ended _ _ dying why =>
    refine .dies dying ?_
    rcases why with hsub | ⟨wait, n, value, e, hs, hw, hk, accept, told⟩
    · generalize m.event = e at hsub allowed ⊢
      have hne : m.before.status p.pid ≠ .running := by
        rw [Kernel.status_of_at? hp rfl, hb]
        nofun
      cases e with
      | destroy => exact .inl (congrArg _ (Option.some.inj hsub))
      | syscall | trapReturn =>
        cases hsub
        exact absurd allowed hne
      | _ => cases hsub
    · exact .inr ⟨wait, n, value, e, hw, hs, hk, accept, told⟩

/-- A blocked process has a sequel in the course of a moment. -/
theorem Course.sequel (c : m.Course) (sound : m.before.board.Sound)
    (allowed : m.event.Allowed m.before) (sound' : m.after.board.Sound)
    (hp : m.before.board.procs.at? p.pid.slot = some p) (hb : p.status = .blocked) :
    ∃ p', m.after.board.procs.at? p.pid.slot = some p' ∧ p'.pid = p.pid ∧ m.Sequel p p' := by
  -- a record that is left as it is
  have same : m.after.board.procs.at? p.pid.slot = some p →
      ∃ p', m.after.board.procs.at? p.pid.slot = some p' ∧ p'.pid = p.pid ∧ m.Sequel p p' :=
    fun h => ⟨p, h, rfl, .stays (.refl hb)⟩
  cases c with
  | @deed b d hr _ _ =>
    obtain ⟨p', hp₁, hf⟩ := d.fate sound hp
    have hp' := hr.at?_of_ne hp₁ (hf.not_running hb)
    have hpid := hf.pid_eq
    refine ⟨p', hp', hpid, sequel_of_fate sound allowed sound' hp hb ?_ hf⟩
    rwa [hpid]
  | turnover _ h => exact same (h.at?_of_live hp (by simp [hb]))
  | idle _ hl hafter =>
    obtain ⟨p₁, c, hp₁, hcases⟩ := hl.released_at? hp hb _ _
    rw [← hafter] at hp₁
    rcases hcases with rfl | ho
    · exact ⟨_, hp₁, rfl, .stays ⟨hb, rfl, rfl, rfl, rfl, rfl, rfl⟩⟩
    · obtain ⟨registers, ends⟩ := EndsCall.of_overdue ho
      refine ⟨_, hp₁, ho.pid, .of_ended sound' ?_ (.inl ho.runnable) registers ends⟩
      rwa [← ho.pid] at hp₁
  | dispatch _ he ha hl hd =>
    obtain ⟨p₁, c, hp₁, hcases⟩ := hl.released_at? hp hb _ _
    obtain hp' | ⟨hpid, hnb, -, cpu, hp'⟩ := hd.at?_cases hp₁
    · rcases hcases with rfl | ho
      · exact ⟨_, hp', rfl, .stays ⟨hb, rfl, rfl, rfl, rfl, rfl, rfl⟩⟩
      · obtain ⟨registers, ends⟩ := EndsCall.of_overdue ho
        refine ⟨_, hp', ho.pid, .of_ended sound' ?_ (.inl ho.runnable) registers ends⟩
        rwa [← ho.pid] at hp'
    · rcases hcases with rfl | ho
      · exact absurd hb hnb
      · obtain ⟨registers, ends⟩ := EndsCall.of_overdue ho
        refine ⟨_, hp', ho.pid, .of_ended sound' ?_ (.inr ⟨rfl, ⟨_, he⟩, ?_⟩) registers ends⟩
        · rwa [← ho.pid] at hp'
        · rw [ha, ← hpid]
          exact congrArg (fun pid => Answer.decided (.run pid)) ho.pid
  | asks _ h =>
    obtain ⟨q, hq, rfl, run⟩ := h.runs
    have hne : q.pid.slot ≠ p.pid.slot := ProcessTable.slot_ne hq hp (by simp [run, hb])
    exact same ((h.at?_of_ne hne).trans hp)
  | @sent q r args _ he _ h =>
    by_cases hi : r.pid.slot = p.pid.slot
    · have hr := h.receiver
      rw [hi] at hr
      cases hr.symm.trans hp
      obtain ⟨size, perm, hp'⟩ := h.handed
      refine ⟨_, hp', rfl, .of_ended sound' hp' (.inl rfl)
        (fun _ hr => TrapFrame.get_setReturn_of_ne _ _ hr) ?_⟩
      have hword := (TrapFrame.get_setReturn p.frame args.a1).symm
      exact .message h.wait ((h.received_iff he).2 ⟨rfl, rfl, hword⟩)
        ((h.sent_iff he (sound.settled hp)).2 ⟨rfl, rfl, hword⟩)
    · exact same (h.spares _ _ hp hb hi)
  | @received q s _ he _ h =>
    by_cases hi : s.pid.slot = p.pid.slot
    · have hs := h.sender
      rw [hi] at hs
      cases hs.symm.trans hp
      refine ⟨_, h.sent, rfl, .of_ended sound' h.sent (.inl rfl)
        (fun _ hr => TrapFrame.get_setReturn_of_ne _ _ hr) ?_⟩
      have hzero : (p.unsent 0).frame.get .a0 = 0 := TrapFrame.get_setReturn _ _
      rw [hzero]
      exact .sent h.wait rfl ((h.received_iff he (sound.settled hp)).2 ⟨rfl, rfl, rfl⟩)
    · exact same (h.spares _ _ hp hb hi)

end Moment

end

namespace Run

variable {clock : Clock} {ms : List Moment} {k : Kernel}

/-- What a moment of a run makes of a process that is blocked before it. -/
theorem exists_sequel (run : Run (.boot clock) ms k) {i : Nat} {m : Moment} (hm : ms[i]? = some m)
    {pid : Pid} {p : Process} (hget : m.before.procs.get? pid = some p) (hb : p.status = .blocked) :
    ∃ p', m.after.procs.get? pid = some p' ∧ m.Sequel p p' := by
  obtain ⟨hp, rfl⟩ := ProcessTable.get?_eq_some.1 hget
  obtain ⟨-, allowed, -⟩ := run.effect hm
  obtain ⟨sound, sound', course⟩ := run.course hm
  obtain ⟨p', hp', hpid, sequel⟩ := course.sequel sound allowed sound' hp hb
  exact ⟨p', ProcessTable.get?_eq_some.2 ⟨hp', hpid⟩, sequel⟩

/-- In every moment of a run, a process that is blocked before it stays blocked with its registers,
its call and its mask; or it is destroyed; or its call ends, which sets the word it returns, leaves
the other registers, and has the cause that belongs to the word. -/
theorem blocked_sequel (run : Run (.boot clock) ms k) :
    ∀ m ∈ ms, ∀ pid p, m.before.procs.get? pid = some p → p.status = .blocked →
      ∃ p', m.after.procs.get? pid = some p' ∧ m.Sequel p p' := by
  intro m hm pid p hget hb
  obtain ⟨i, hi⟩ := List.mem_iff_getElem?.1 hm
  exact run.exists_sequel hi hget hb

/-- A process waits 5 milliseconds for a message and the processor asks for a process after 10. -/
def receiveTooLong : List Event :=
  [.spawn 0 (((TrapFrame.newUser 0x1000 0x2000).set .a7 1103).set .a2 5), .schedule 0,
    .syscall (.ofSlot 1 0), .advance 10, .schedule 0]

/-- The processor ends the receive and takes up the process. -/
theorem blocked_sequel_of_receiveTooLong :
    ∃ ms k, play (.boot default) receiveTooLong = some (ms, k) ∧ ∃ m ∈ ms, ∃ p p',
      m.before.procs.get? (.ofSlot 1 0) = some p ∧ p.status = .blocked ∧
        m.after.procs.get? (.ofSlot 1 0) = some p' ∧ p'.status = .running ∧
        p'.frame.get .a0 = Errno.timedOut.toWord ∧ m.Sequel p p' := by
  have hplay : (play (.boot default) receiveTooLong).any (fun r =>
      r.1[4]?.any fun m => (m.before.procs.get? (.ofSlot 1 0)).any fun p =>
        (m.after.procs.get? (.ofSlot 1 0)).any fun p' =>
          p.status = .blocked ∧ p'.status = .running ∧
            p'.frame.get .a0 = Errno.timedOut.toWord) = true := by
    decide +kernel
  obtain ⟨⟨ms, k⟩, h, hr⟩ := (Option.any_eq_true _ _).1 hplay
  obtain ⟨m, hm, hr⟩ := (Option.any_eq_true _ _).1 hr
  obtain ⟨p, hp, hr⟩ := (Option.any_eq_true _ _).1 hr
  obtain ⟨p', hp', hr⟩ := (Option.any_eq_true _ _).1 hr
  obtain ⟨hb, hrun, hword⟩ := of_decide_eq_true hr
  have hmem : m ∈ ms := List.mem_of_getElem? hm
  obtain ⟨q, hq, sequel⟩ := blocked_sequel (Run.of_play h) m hmem _ p hp hb
  cases hp'.symm.trans hq
  exact ⟨ms, k, h, m, hmem, p, p', hp, hb, hp', hrun, hword, sequel⟩

end Run

end SyncKernel
