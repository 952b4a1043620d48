import SyncKernel.Proofs.Deadlines
import SyncKernel.Proofs.WakeUps

/-!
# How long a call with a timeout lasts

A call on messages with a timeout that blocks its caller fixes the deadline `d` of the call. While
the caller is blocked, the deadline stands in its record (`Run.due_of_blockedThrough`). So the call
does not time out before `d`, and it does not outlast `d` by much: a receive is over after a
processor has asked for a process at `d` or later, and any call is over after a timer interrupt that
comes an interval between sweeps later than `d`, even if the timer does not sweep in it
(`Run.timeout_bounds`).
-/

namespace SyncKernel

/-- In this moment a call of the process `s` ends with the error of a timeout; the word of that
error is not a message that the process receives. -/
def Moment.TimesOut (m : Moment) (s : Pid) : Prop :=
  ∃ p, m.after.procs.get? s = some p ∧ (p.status = .runnable ∨ p.status = .running) ∧
    p.frame.get .a0 = Errno.timedOut.toWord ∧ ∀ sender value, ¬ m.Received sender s value

/-- After each of the moments from `i` to `j` the process `s` is blocked. If it blocked in the
moment `i`, it is still in the same call then. -/
def BlockedThrough (ms : List Moment) (s : Pid) (i j : Nat) : Prop :=
  ∀ l m, i ≤ l → l ≤ j → ms[l]? = some m → m.after.status s = .blocked

theorem BlockedThrough.mono {ms : List Moment} {s : Pid} {i j j' : Nat}
    (h : BlockedThrough ms s i j) (hj : j' ≤ j) : BlockedThrough ms s i j' :=
  fun l m hi hl => h l m hi (Nat.le_trans hl hj)

instance (ms : List Moment) (s : Pid) (i j : Nat) : Decidable (BlockedThrough ms s i j) :=
  decidable_of_iff (∀ l < j + 1, i ≤ l → (ms[l]?.all fun m => m.after.status s = .blocked) = true)
    (by simp only [BlockedThrough, Option.all_eq_true, decide_eq_true_eq, Nat.lt_succ_iff]
        exact ⟨fun h l m hi hl hm => h l hl hi m hm, fun h l hl hi m hm => h l m hi hl hm⟩)

section
variable {m : Moment} {p p' : Process} {d : Millis}

/-- A process that is still blocked has the deadline that it had. -/
theorem Process.StaysBlocked.due (h : p.StaysBlocked p') (hd : p.Due d) : p'.Due d := by
  rcases hd with ⟨hr, hdl⟩ | ⟨hs, hdl⟩
  · exact .inl ⟨⟨h.status, h.receive ▸ hr.2⟩, h.receive ▸ hdl⟩
  · exact .inr ⟨⟨h.status, h.send ▸ hs.2⟩, h.send ▸ hdl⟩

/-- A process waits for a message at most up to the deadline that it has. -/
theorem Process.Due.receive_deadline (h : p.Settled) (hd : p.Due d) (hr : p.Receives) :
    p.receive.deadline = some d := by
  rcases hd with ⟨-, hdl⟩ | ⟨hs, -⟩
  · exact hdl
  · exact absurd hr (h.not_receives hs)

/-- The deadline of a process that waits to send is that of the send. -/
theorem Process.Due.send_deadline (h : p.Settled) (hd : p.Due d) (hs : p.Sends) :
    p.send.deadline = some d := by
  rcases hd with ⟨hr, -⟩ | ⟨-, hdl⟩
  · exact absurd hr (h.not_receives hs)
  · exact hdl

/-- A call that ends with the error of a timeout, and not with a message, is at its deadline. -/
theorem Moment.EndsCall.le_of_timedOut (h : p.Settled) (hd : p.Due d)
    (silent : ∀ sender value, ¬ m.Received sender p.pid value) {word : UInt64}
    (ends : m.EndsCall p word) (hw : word = Errno.timedOut.toWord) :
    d ≤ m.before.clock.now := by
  have zero : (0 : UInt64) ≠ Errno.timedOut.toWord := (Errno.toWord_ne_zero _).symm
  cases ends with
  | futex | sent | signal => exact absurd hw zero
  | message _ received _ => exact absurd received (silent _ _)
  | noMessage wait hdl late =>
    cases hdl.symm.trans (hd.receive_deadline h wait)
    exact late
  | noTarget => exact absurd hw (by decide)
  | notSent wait _ hdl late =>
    cases hdl.symm.trans (hd.send_deadline h wait.sends)
    exact late
  | interrupted => exact absurd hw (by decide)

/-- A blocked process that is blocked after a moment stays in its call. -/
theorem Moment.Sequel.staysBlocked (h : m.Sequel p p') (hb : p'.status = .blocked) :
    p.StaysBlocked p' := by
  cases h with
  | stays h => exact h
  | dies dying => cases hb.symm.trans dying
  | wakes status =>
    rcases status with hs | ⟨hs, -⟩ <;> cases hb.symm.trans hs

end

/-- A system call that blocks its caller in a call on messages changes the caller's record only. -/
theorem Effect.asks {k k' : Kernel} {pid : Pid} {call : Syscall} {args : SyscallArgs} {a : Answer}
    (m : Effect k (.syscall pid) a k') (h : k.board.Sound) (hr : k.board.Runs pid)
    (ans : ∃ k₁, k.Answers pid call args (.ok .blocked) k₁)
    (hc : call.sends = true ∨ call.receives = true) :
    ∃ p, k'.procs = k.procs.put p ∧ p.pid = pid ∧ p.Asks k.clock.now call args := by
  obtain ⟨k₂, ans⟩ := ans
  cases m with
  | deed he | turnover he => exact absurd rfl (he pid)
  | unknown none =>
    have hnone := none.asked?
    rw [ans.asked?] at hnone
    cases hnone
  | @served _ _ _ _ k₁ _ _ ans' _ _ hret =>
    obtain ⟨rfl, rfl, rfl⟩ := ans'.unique ans
    obtain ⟨p, hprocs, hpid, hasks⟩ := ans'.asks h hr hc
    obtain ⟨-, hb⟩ := hret.of_none rfl
    exact ⟨p, (congrArg Board.procs hb).trans hprocs, hpid, hasks⟩

/-- A system call whose outcome is that its caller is blocked was answered so. -/
theorem Effect.answers_of_blocked {k k' : Kernel} {pid : Pid} {call : Syscall} {args : SyscallArgs}
    (m : Effect k (.syscall pid) (.served .blocked) k') (asked : k.asked? pid = some (call, args)) :
    ∃ k₁, k.Answers pid call args (.ok .blocked) k₁ := by
  generalize ha : Answer.served .blocked = a at m
  cases m with
  | deed he | turnover he => exact absurd rfl (he pid)
  | unknown none => cases none.asked?.symm.trans asked
  | @served _ _ _ a k₁ _ _ ans _ _ hr =>
    cases ans.asked?.symm.trans asked
    cases ha
    have ho := hr.outcome
    cases a with
    | error => cases ho
    | ok o =>
      cases ho
      exact ⟨k₁, ans⟩

/-- A call with a timeout is a call on messages. -/
theorem Syscall.on_messages {call : Syscall} {args : SyscallArgs} {timeout : Millis}
    (h : call.timeout? args = some timeout) : call.sends = true ∨ call.receives = true := by
  cases call <;> simp_all [Syscall.timeout?, Syscall.sends, Syscall.receives]

namespace Run

variable {clock : Clock} {ms : List Moment} {k : Kernel} {i j : Nat} {m m' : Moment} {s : Pid}
  {call : Syscall} {args : SyscallArgs} {timeout : Millis}

/-- As long as a process is blocked in a call with a timeout, its deadline is the time of the call
and the timeout added up. -/
theorem due_of_blockedThrough (run : Run (.boot clock) ms k) (hm : ms[i]? = some m)
    (ans : m.Answers s call args (.ok .blocked)) (ht : call.timeout? args = some timeout)
    (hij : i ≤ j) (hj : ms[j]? = some m') (blocked : BlockedThrough ms s i j) :
    ∃ p, m'.after.procs.get? s = some p ∧ p.Due (deadlineAfter m.before.clock.now timeout) ∧
      (call.receives = true → p.Receives) := by
  induction j, hij using Nat.le_induction generalizing m' with
  | base =>
    cases hm.symm.trans hj
    obtain ⟨he, ans⟩ := ans
    obtain ⟨sound, allowed, effect⟩ := run.effect hm
    rw [he] at allowed effect
    obtain ⟨p, hprocs, rfl, hasks⟩ := effect.asks sound (Kernel.status_eq_running.1 allowed) ans
      (Syscall.on_messages ht)
    refine ⟨p, ?_, (hasks.due _).2 ⟨timeout, ht, rfl⟩, hasks.receives.2⟩
    rw [hprocs]
    exact ProcessTable.get?_put_self
  | succ j hij ih =>
    have hlt : j < ms.length :=
      Nat.lt_of_succ_lt (List.getElem?_eq_some_iff.1 hj).1
    have hm₀ : ms[j]? = some ms[j] := List.getElem?_eq_getElem hlt
    obtain ⟨p, hp, hd, hrcv⟩ := ih hm₀ (blocked.mono (Nat.le_succ j))
    have hbefore : m'.before = ms[j].after := run.before_succ hm₀ hj
    rw [← hbefore] at hp
    obtain ⟨p', hp', sequel⟩ := run.exists_sequel hj hp hd.blocked
    have hb : p'.status = .blocked := by
      have hstatus := blocked (j + 1) m' (Nat.le_succ_of_le hij) (Nat.le_refl _) hj
      simpa [Kernel.status, hp'] using hstatus
    have hstays := sequel.staysBlocked hb
    exact ⟨p', hp', hstays.due hd, fun hc => ⟨hb, hstays.receive ▸ (hrcv hc).2⟩⟩

section
variable (run : Run (.boot clock) ms k) (hm : ms[i]? = some m)
  (ans : m.Answers s call args (.ok .blocked)) (ht : call.timeout? args = some timeout)
  (hij : i < j) (hj : ms[j]? = some m')
include run hm ans ht hij hj

/-- A call that times out does so at its deadline or later. -/
theorem deadline_le_of_timesOut (blocked : BlockedThrough ms s i (j - 1)) (out : m'.TimesOut s) :
    deadlineAfter m.before.clock.now timeout ≤ m'.before.clock.now := by
  -- before the moment in which the call ends the process is blocked with its deadline
  obtain ⟨j, rfl⟩ := Nat.exists_eq_add_of_lt hij
  have hlt : i + j < ms.length := Nat.lt_of_succ_lt (List.getElem?_eq_some_iff.1 hj).1
  have hm₀ : ms[i + j]? = some ms[i + j] := List.getElem?_eq_getElem hlt
  obtain ⟨p, hp, hdue, -⟩ :=
    run.due_of_blockedThrough hm ans ht (Nat.le_add_right i j) hm₀ blocked
  rw [← run.before_succ hm₀ hj] at hp
  obtain ⟨hat, rfl⟩ := ProcessTable.get?_eq_some.1 hp
  obtain ⟨p', hp', sequel⟩ :=
    run.exists_sequel hj hp hdue.blocked
  obtain ⟨q, hq, awake, hword, silent⟩ := out
  cases hq.symm.trans hp'
  obtain ⟨sound, -⟩ := run.effect hj
  cases sequel with
  | stays h => rcases awake with hs | hs <;> cases h.status.symm.trans hs
  | dies dying => rcases awake with hs | hs <;> cases dying.symm.trans hs
  | wakes _ _ _ ends => exact ends.le_of_timedOut (sound.settled hat) hdue silent hword

/-- A process that is still blocked in the call after a timer interrupt is overdue for less than an
interval between sweeps. -/
theorem tick_lt_of_blockedThrough (nowrap : NoWrap ms) (blocked : BlockedThrough ms s i j)
    (he : m'.event = .timerTick) :
    m'.before.clock.now.toNat <
      (deadlineAfter m.before.clock.now timeout).toNat + sweepInterval := by
  obtain ⟨p, hp, hdue, -⟩ := run.due_of_blockedThrough hm ans ht (Nat.le_of_lt hij) hj blocked
  generalize deadlineAfter m.before.clock.now timeout = deadline at hdue ⊢
  obtain ⟨run', -, step⟩ := run.before hj
  have punctual := run'.punctual fun m hm => nowrap m (List.mem_of_mem_take hm)
  have htick : Step.Leaves Kernel.timerTick m'.before fun _ k' =>
      k'.procs.get? s = some p → m'.before.clock.now.toNat < deadline.toNat + sweepInterval := by
    intro n k' hn hp
    obtain ⟨hat, -⟩ := ProcessTable.get?_eq_some.1 hp
    have hmax : m'.before.clock.now.toNat < 2 ^ 64 := UInt64.toNat_lt _
    have hpos : 0 < sweepInterval := by decide
    rcases Kernel.timerTick_cases run'.sound hn with ⟨rfl, hthrottle⟩ | ⟨-, -, hlate⟩
    · rcases punctual.due _ p deadline hat hdue with hlt | hlast
      · rw [UInt64.lt_iff_toNat_lt] at hlt
        omega
      · omega
    · have hlt := hlate _ p deadline hat hdue
      rw [UInt64.lt_iff_toNat_lt] at hlt
      omega
  have hmap : Step.Leaves (Event.timerTick).perform m'.before fun _ k' =>
      k'.procs.get? s = some p → m'.before.clock.now.toNat < deadline.toNat + sweepInterval :=
    Step.leaves_map.2 htick
  rw [he] at step
  exact hmap _ _ step hp

/-- A process that still waits for a message after a processor has asked for a process is not
overdue. -/
theorem schedule_lt_of_blockedThrough (hc : call.receives = true)
    (blocked : BlockedThrough ms s i j) {cpu : Nat} (he : m'.event = .schedule cpu) :
    m'.before.clock.now < deadlineAfter m.before.clock.now timeout := by
  obtain ⟨p, hp, hdue, hrcv⟩ := run.due_of_blockedThrough hm ans ht (Nat.le_of_lt hij) hj blocked
  obtain ⟨run', -, step⟩ := run.before hj
  obtain ⟨-, sound', -⟩ := run.course hj
  obtain ⟨hat, -⟩ := ProcessTable.get?_eq_some.1 hp
  have hdl := hdue.receive_deadline (sound'.table.settled _ p hat) (hrcv hc)
  have hsched : Step.Leaves (Kernel.schedule cpu) m'.before fun _ k' =>
      k'.procs.get? s = some p →
        m'.before.clock.now < deadlineAfter m.before.clock.now timeout := by
    intro dec k' hk hp
    obtain ⟨hat, -⟩ := ProcessTable.get?_eq_some.1 hp
    have hlate := Kernel.schedule_late run'.sound hk _ p hat (hrcv hc)
    rw [hdl] at hlate
    exact deadlineElapsed_eq_false.1 hlate
  have hmap : Step.Leaves (Event.schedule cpu).perform m'.before fun _ k' =>
      k'.procs.get? s = some p →
        m'.before.clock.now < deadlineAfter m.before.clock.now timeout :=
    Step.leaves_map.2 hsched
  rw [he] at step
  exact hmap _ _ step hp

end

/-- Let a process call for a message to be sent or received, with a timeout, and be blocked in that
call; the clock does not wrap. The call gives up at `d`: that is the time of the call and the
timeout added up, or the last time there is. Then

* the call does not end with the error of a timeout before `d`;
* the process is not blocked in the call any more after a timer interrupt that comes at `d` and an
  interval between sweeps or later, whether the timer sweeps or not;
* if it waits for a message, it is not blocked in the call any more after a processor has asked for
  a process at `d` or later. -/
theorem timeout_bounds (run : Run (.boot clock) ms k) (nowrap : NoWrap ms) (hm : ms[i]? = some m)
    (ans : m.Answers s call args (.ok .blocked)) (ht : call.timeout? args = some timeout) :
    let d := min (m.before.clock.now.toNat + timeout.toNat) (2 ^ 64 - 1)
    (∀ j m', i < j → ms[j]? = some m' → BlockedThrough ms s i (j - 1) → m'.TimesOut s →
        d ≤ m'.before.clock.now.toNat) ∧
      (∀ j m', i < j → ms[j]? = some m' → m'.event = .timerTick →
        d + sweepInterval ≤ m'.before.clock.now.toNat → ∀ l, j ≤ l → ¬ BlockedThrough ms s i l) ∧
      (call.receives = true → ∀ j m' cpu, i < j → ms[j]? = some m' → m'.event = .schedule cpu →
        d ≤ m'.before.clock.now.toNat → ∀ l, j ≤ l → ¬ BlockedThrough ms s i l) := by
  intro d
  have hd : (deadlineAfter m.before.clock.now timeout).toNat = d := toNat_deadlineAfter _ _
  refine ⟨fun j m' hij hj blocked out => ?_, fun j m' hij hj he late l hl blocked => ?_,
    fun hc j m' cpu hij hj he late l hl blocked => ?_⟩
  · have hle := run.deadline_le_of_timesOut hm ans ht hij hj blocked out
    exact hd ▸ UInt64.le_iff_toNat_le.1 hle
  · have hlt := run.tick_lt_of_blockedThrough hm ans ht hij hj nowrap (blocked.mono hl) he
    omega
  · have hlt := run.schedule_lt_of_blockedThrough hm ans ht hij hj hc (blocked.mono hl) he
    rw [UInt64.lt_iff_toNat_lt] at hlt
    omega

/-- A process waits 7 milliseconds to send a message to itself, and the timer interrupts when more
than an interval between sweeps has passed. -/
def sendToSelf : List Event :=
  [.spawn 0 (((TrapFrame.newUser 0x1000 0x2000).set .a7 1102).set .a5 7), .schedule 0,
    .syscall (.ofSlot 1 0), .advance 600, .timerTick]

/-- The process is blocked until the timer interrupts, and not any more then. -/
theorem timeout_bounds_of_sendToSelf :
    ∃ ms k m args, play (.boot default) sendToSelf = some (ms, k) ∧ NoWrap ms ∧
      ms[2]? = some m ∧ m.Answers (.ofSlot 1 0) .sendTimeout args (.ok .blocked) ∧ args.a5 = 7 ∧
      BlockedThrough ms (.ofSlot 1 0) 2 3 ∧ ¬ BlockedThrough ms (.ofSlot 1 0) 2 4 := by
  have hplay : (play (.boot default) sendToSelf).any (fun r =>
      NoWrap r.1 ∧ BlockedThrough r.1 (.ofSlot 1 0) 2 3 ∧
        (r.1[2]?.any fun m => m.before.clock.now = 0 && m.answer = .served .blocked &&
          (m.before.asked? (.ofSlot 1 0)).any fun c => c.1 = .sendTimeout && c.2.a5 = 7) = true ∧
        (r.1[4]?.any fun m => m.before.clock.now = 600) = true) = true := by
    decide +kernel
  obtain ⟨⟨ms, k⟩, h, hr⟩ := (Option.any_eq_true _ _).1 hplay
  obtain ⟨nowrap, blocked, hcall, htick⟩ := of_decide_eq_true hr
  obtain ⟨m, hm, hcall⟩ := (Option.any_eq_true _ _).1 hcall
  obtain ⟨m', hm', htime⟩ := (Option.any_eq_true _ _).1 htick
  simp only [Bool.and_eq_true, decide_eq_true_eq] at hcall htime
  obtain ⟨⟨hzero, hans⟩, hasked⟩ := hcall
  obtain ⟨⟨call, args⟩, hasked, hargs⟩ := (Option.any_eq_true _ _).1 hasked
  simp only [Bool.and_eq_true, decide_eq_true_eq] at hargs
  obtain ⟨rfl, ha5⟩ := hargs
  have hevents := events_of_play h
  have he : m.event = .syscall (.ofSlot 1 0) := by
    have := congrArg (·[2]?) hevents
    simpa [hm, sendToSelf] using this
  have he' : m'.event = .timerTick := by
    have := congrArg (·[4]?) hevents
    simpa [hm', sendToSelf] using this
  have run := Run.of_play h
  have ans : m.Answers (.ofSlot 1 0) .sendTimeout args (.ok .blocked) := by
    obtain ⟨-, -, effect⟩ := run.effect hm
    rw [he, hans] at effect
    exact ⟨he, effect.answers_of_blocked hasked⟩
  have ht : Syscall.timeout? args .sendTimeout = some 7 := congrArg some ha5
  obtain ⟨-, hends, -⟩ := timeout_bounds run nowrap hm ans ht
  refine ⟨ms, k, m, args, h, nowrap, hm, ans, ha5, blocked, ?_⟩
  refine hends 4 m' (by decide) hm' he' ?_ 4 (Nat.le_refl 4)
  rw [hzero, htime]
  decide

end Run

end SyncKernel
