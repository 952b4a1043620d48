import SyncKernel.Proofs.Rendezvous

/-!
# The course of a moment

From outside, a moment of a run shows the event, the answer and the kernels before and after. That
is enough to tell which signal was sent in it (`Moment.request?`), which process was destroyed
(`Moment.ended?`), and what was done to the queues of processes that wait on futexes
(`Moment.futexOp`). `Moment.Course` lists what can have happened, in these terms: a deed that sends
that signal and is that operation on the queues, or something that does neither. Every moment of a
run took one of these courses (`Run.course`).
-/

namespace SyncKernel

open Board

/-- The system call that the registers of a process ask for, and its arguments. -/
def Kernel.asked? (k : Kernel) (pid : Pid) : Option (Syscall × SyscallArgs) :=
  (k.procs.get? pid).bind fun p =>
    (Syscall.ofNumber? p.frame.callNumber.toNat).map fun call => (call, p.frame.callArgs)

namespace Moment

/-- The signal that is sent in a moment, if any. -/
def request? (m : Moment) : Option SignalRequest :=
  match m.event with
  | .syscall pid => (m.before.asked? pid).bind fun (call, args) => call.signal? pid args
  | e => e.request?

/-- The process that is destroyed in a moment, if any: it was alive and is dying. -/
def ended? (m : Moment) : Option Process :=
  m.before.procs.processes.find? fun p =>
    p.status != .dying && m.after.status p.pid == .dying

/-- What the event of a moment does to the queues of processes that wait on futexes, as long as no
process is destroyed. -/
def askedOp (m : Moment) : FutexOp :=
  match m.event, m.answer with
  | .syscall pid, .served o =>
    match m.before.asked? pid with
    | some (call, args) => call.futexOp pid args o
    | none => .none
  | e, _ => e.futexOp

/-- What is done in a moment to the queues of processes that wait on futexes: a process that is
destroyed leaves them, and otherwise it is what the event asks for. -/
def futexOp (m : Moment) : FutexOp :=
  match m.ended? with
  | some p => .leave p.pid (p.locks m.before.memory)
  | none => m.askedOp

end Moment

section
variable {k k' : Kernel} {pid : Pid} {call : Syscall} {args : SyscallArgs}
  {a : Except Errno SyscallOutcome}

/-- A call that is answered is the one the caller asks for. -/
theorem Kernel.Answers.asked? (h : k.Answers pid call args a k') :
    k.asked? pid = some (call, args) := by
  obtain ⟨p, hp, hcall, rfl, -⟩ := h
  simp [Kernel.asked?, hp, hcall]

/-- A process whose call number is unknown asks for no call. -/
theorem Kernel.AsksForNone.asked? (h : k.AsksForNone pid) : k.asked? pid = none := by
  obtain ⟨p, hp, hcall⟩ := h
  simp [Kernel.asked?, hp, hcall]

end

/-! ## Who dies -/

namespace Board

variable {b b' b₁ : Board} {p p' : Process} {now : Millis} {pid : Pid}

/-- Who is dying was dying before. -/
def NoneDies (b b' : Board) : Prop :=
  ∀ i p', b'.procs.at? i = some p' → p'.status = .dying →
    ∃ p, b.procs.at? i = some p ∧ p.pid = p'.pid ∧ p.status = .dying

theorem NoneDies.refl (b : Board) : NoneDies b b :=
  fun _ p' hp' hd => ⟨p', hp', rfl, hd⟩

theorem NoneDies.trans (h : NoneDies b b₁) (h' : NoneDies b₁ b') : NoneDies b b' := by
  intro i p' hp' hd
  obtain ⟨q, hq, hpid, hdq⟩ := h' i p' hp' hd
  obtain ⟨p, hp, hpid', hdp⟩ := h i q hq hdq
  exact ⟨p, hp, hpid'.trans hpid, hdp⟩

/-- Nobody dies if who is dying was there as it is. -/
theorem NoneDies.of_at? (h : ∀ i p', b'.procs.at? i = some p' → p'.status = .dying →
    b.procs.at? i = some p') : NoneDies b b' :=
  fun i p' hp' hd => ⟨p', h i p' hp' hd, rfl, hd⟩

/-- Nobody dies when a record is replaced by one that is not dying. -/
theorem NoneDies.put (p' : Process) (hs : p'.status ≠ .dying) : NoneDies b (b.put p') :=
  .of_at? fun i q hq hd => by
    rcases ProcessTable.at?_put_cases hq with ⟨-, rfl⟩ | ⟨-, hq⟩
    · exact absurd hd hs
    · exact hq

/-- Nobody dies when calls on messages end. -/
theorem Lapses.noneDies (ms : Lapses now b b') : NoneDies b b' := by
  induction ms with
  | refl => exact .refl b
  | tail _ m ih =>
    cases m with
    | ended _ ho => exact ih.trans (.put _ (by simp [ho.runnable]))

/-- Nobody dies when a processor lets go of the process it ran. -/
theorem NoneDies.released (b : Board) (cpu : Fin cpuCount) (chosen : Option (Fin slotCount)) :
    NoneDies b (b.released cpu chosen) := by
  intro i q hq hd
  rw [Board.released] at hq
  rcases ProcessTable.release_cases (t := b.procs) cpu b.cpus[cpu].current chosen with
    heq | ⟨p, -, hp, -, ⟨-, -, heq⟩ | ⟨-, heq⟩⟩ <;> rw [heq] at hq
  · exact ⟨q, hq, rfl, hd⟩
  · rcases ProcessTable.at?_put_cases hq with ⟨-, rfl⟩ | ⟨-, hq⟩
    · cases hd
    · exact ⟨q, hq, rfl, hd⟩
  · rcases ProcessTable.at?_put_cases hq with ⟨rfl, rfl⟩ | ⟨-, hq⟩
    · exact ⟨p, hp, rfl, hd⟩
    · exact ⟨q, hq, rfl, hd⟩

/-- Nobody dies when a processor takes up a process. -/
theorem Dispatch.noneDies (m : Dispatch pid b b') : NoneDies b b' := by
  cases m with
  | @run p cpu hp _ _ =>
    have hput : NoneDies b
        (b.put { p with status := .running, cpu := some cpu, runs := p.runs + 1 }) := .put _ nofun
    exact hput

/-- Who is dying when a process comes or goes was dying before. -/
theorem Turnover.noneDies (m : Turnover b b') : NoneDies b b' := by
  cases m with
  | reclaim hr =>
    obtain ⟨-, -, -, -, hat⟩ := ProcessTable.reclaim_ok hr
    refine .of_at? fun i q hq _ => ?_
    rw [hat] at hq
    split at hq
    · cases hq
    · exact hq
  | enter ha =>
    obtain ⟨-, rfl⟩ := ProcessTable.alloc_ok ha
    exact NoneDies.put (b := b) _ nofun

/-- Nobody dies when a process blocks in a call on messages. -/
theorem Ask.noneDies {what : Option (Pid × Message)} (m : Ask now pid what b b') :
    NoneDies b b' := by
  cases m with
  | receive | send => exact .put _ nofun

/-- Nobody dies when a message passes. -/
theorem Pass.noneDies {sender receiver : Pid} {value : UInt64}
    (m : Pass sender receiver value b b') : NoneDies b b' := by
  cases m with
  | send => exact .put (Process.handed _ _ _ _ _) nofun
  | fetch =>
    refine .trans (.put (Process.unsent _ 0) nofun) (.put _ ?_)
    nofun

/-! ## Who leaves the futex queues as they are -/

/-- Taking up a process leaves the futex queues. -/
theorem Dispatch.futexes (m : Dispatch pid b b') : b'.futexes = b.futexes := by
  cases m
  rfl

/-- A process that comes or goes leaves the futex queues. -/
theorem Turnover.futexes (m : Turnover b b') : b'.futexes = b.futexes := by
  cases m <;> rfl

/-- Blocking in a call on messages leaves the futex queues. -/
theorem Ask.futexes {what : Option (Pid × Message)} (m : Ask now pid what b b') :
    b'.futexes = b.futexes := by
  cases m <;> rfl

/-- A message that passes leaves the futex queues. -/
theorem Pass.futexes {sender receiver : Pid} {value : UInt64}
    (m : Pass sender receiver value b b') : b'.futexes = b.futexes := by
  cases m <;> rfl

/-! ## Words that are returned -/

/-- After an operation a word may be put into the registers of a running process. -/
inductive Answered (b : Board) : Board → Prop where
  | none : Answered b b
  | word {p : Process} (hp : b.procs.at? p.pid.slot = some p) (run : p.status = .running)
      (value : UInt64) : Answered b (b.put { p with frame := p.frame.setReturn value })

namespace Answered

/-- Setting the result of a call leaves the futex queues. -/
theorem futexes (m : Answered b b') : b'.futexes = b.futexes := by
  cases m <;> rfl

/-- Only the record of a running process changes. -/
theorem at?_of_ne (m : Answered b b') {i : Fin slotCount} (hp : b.procs.at? i = some p)
    (hs : p.status ≠ .running) : b'.procs.at? i = some p := by
  cases m with
  | none => exact hp
  | @word q hq run value =>
    refine (ProcessTable.at?_put_of_ne ?_).trans hp
    rintro rfl
    cases hq.symm.trans hp
    exact hs run

/-- Who is dying afterwards was dying before. -/
theorem noneDies (m : Answered b b') : NoneDies b b' := by
  cases m with
  | none => exact .refl b
  | word _ run => exact .put _ (by simp [run])

end Answered

end Board

/-- How a system call is left puts at most a word into the registers of the caller. -/
theorem Kernel.Returns.answered {pid : Pid} {a : Except Errno SyscallOutcome} {o : SyscallOutcome}
    {b b' : Board} (m : Returns pid a o b b') : Answered b b' := by
  cases m with
  | word _ hp _ run => exact .word hp run _
  | other => exact .none

/-! ## What is seen of a moment -/

/-- A process that is dying has a record. -/
theorem Kernel.exists_of_status {k : Kernel} {pid : Pid} (h : k.status pid = .dying) :
    ∃ p, k.procs.at? pid.slot = some p ∧ p.pid = pid ∧ p.status = .dying := by
  unfold Kernel.status at h
  split at h
  · next p hp =>
    obtain ⟨hat, hpid⟩ := ProcessTable.get?_eq_some.1 hp
    exact ⟨p, hat, hpid, h⟩
  · cases h

/-- The status of a process is that of its record. -/
theorem Kernel.status_of_at? {k : Kernel} {p : Process} {pid : Pid}
    (hp : k.procs.at? pid.slot = some p) (hpid : p.pid = pid) : k.status pid = p.status := by
  rw [Kernel.status, ProcessTable.get?_eq_some.2 ⟨hp, hpid⟩]

namespace Moment

variable {m : Moment} {p : Process} {pid : Pid} {b : Board}

/-- Who is destroyed was there, not dying, and is dying afterwards. -/
theorem of_ended? (sound : m.before.board.Sound) (h : m.ended? = some p) :
    m.before.board.procs.at? p.pid.slot = some p ∧ p.status ≠ .dying ∧
      ∃ p', m.after.board.procs.at? p.pid.slot = some p' ∧ p'.pid = p.pid ∧
        p'.status = .dying := by
  have htest := List.find?_some h
  obtain ⟨i, hi⟩ := ProcessTable.mem_processes.1 (List.mem_of_find?_eq_some h)
  simp only [Bool.and_eq_true, bne_iff_ne, beq_iff_eq] at htest
  exact ⟨sound.table.at?_slot hi, htest.1, Kernel.exists_of_status htest.2⟩

/-- A process that a moment makes dying is the one that ended in it. -/
theorem ended?_isSome (hp : m.before.board.procs.at? pid.slot = some p) (hpid : p.pid = pid)
    (live : p.status ≠ .dying) (dying : m.after.status pid = .dying) : m.ended? ≠ none := by
  intro h
  have htest := List.find?_eq_none.1 h p (ProcessTable.mem_processes.2 ⟨_, hp⟩)
  subst hpid
  simp [live, dying] at htest

/-- If nobody dies, nobody is destroyed. -/
theorem ended?_eq_none (sound : m.before.board.Sound)
    (h : NoneDies m.before.board m.after.board) : m.ended? = none := by
  cases he : m.ended? with
  | none => rfl
  | some p =>
    obtain ⟨hp, live, p', hp', hpid, dying⟩ := of_ended? sound he
    obtain ⟨q, hq, -, hd⟩ := h _ _ hp' dying
    cases hp.symm.trans hq
    exact absurd hd live

/-- In a moment in which nobody dies, the operation on the futex queues is the one asked for. -/
theorem futexOp_of_noneDies (sound : m.before.board.Sound)
    (h : NoneDies m.before.board m.after.board) : m.futexOp = m.askedOp := by
  rw [futexOp, ended?_eq_none sound h]

/-- If nothing is done to the queues, nothing was asked for. -/
theorem futexOp_eq_none (h : m.futexOp = .none) : m.askedOp = .none := by
  rw [futexOp] at h
  split at h
  · cases h
  · exact h

/-- A deed that changes the queues as asked for, unless a process is destroyed in it, changes them
as the moment shows. -/
theorem deed_of_does {now : Millis} {subject : Option Pid} {sent : Option SignalRequest}
    {mem' : Memory} (sound : m.before.board.Sound)
    (h : Does now subject sent m.before.memory mem' m.askedOp m.before.board b)
    (hr : Answered b m.after.board) :
    Deed now subject sent m.before.memory mem' m.futexOp m.before.board b ∧
      (m.askedOp ≠ .none → m.futexOp = m.askedOp) := by
  obtain ⟨op, hop, d⟩ := h
  suffices heq : m.futexOp = op by
    rw [heq]
    exact ⟨d, fun hne => hop.resolve_right fun hnone => hne hnone.1⟩
  cases he : m.ended? with
  | some p =>
    obtain ⟨hp, live, p', hp', -, dying⟩ := of_ended? sound he
    obtain ⟨q, hq, -, hd⟩ := hr.noneDies _ _ hp' dying
    obtain ⟨q', hq', hf⟩ := d.fate sound hp
    cases hq.symm.trans hq'
    rw [futexOp, he, hf.op_of_dying live hd]
  | none =>
    rw [futexOp, he]
    obtain rfl | ⟨-, pid, locks, rfl⟩ := hop
    · rfl
    · obtain ⟨p, p', hp, hpid, live, hp', hpid', hd⟩ := d.exists_of_leave
      have hat := hr.at?_of_ne hp' (by simp [hd])
      exact absurd he (ended?_isSome hp hpid live ((Kernel.status_of_at? hat hpid').trans hd))

/-- The answer of a moment is a number: a system call returns it to its caller. -/
def Counts (m : Moment) (n : Nat) : Prop :=
  match m.event with
  | .syscall _ => m.answer = .served (.returned (UInt64.ofNat n))
  | _ => m.answer = .counted n

/-- What happens in a moment. -/
inductive Course (m : Moment) : Prop where
  /-- A deed, after which a word may be returned to a caller. -/
  | deed {b : Board}
      (d : Deed m.before.clock.now m.event.subject? m.request? m.before.memory m.after.memory
        m.futexOp m.before.board b)
      (hr : Answered b m.after.board) (asked : m.askedOp ≠ .none → m.futexOp = m.askedOp)
      (count : ∀ address most, m.askedOp = .wake address most →
        m.Counts (min most (m.before.futexes.queue address).length)) : Course m
  /-- A process comes or goes. -/
  | turnover (hop : m.futexOp = .none) (h : Turnover m.before.board m.after.board) : Course m
  /-- A processor lets go of its process after overdue calls were ended, and finds no other. -/
  | idle {cpu : Fin cpuCount} {b : Board} {chosen : Option (Fin slotCount)}
      (hop : m.futexOp = .none) (h : Lapses m.before.clock.now m.before.board b)
      (hb : m.after.board = b.released cpu chosen) : Course m
  /-- A processor lets go of its process after overdue calls were ended, and takes up one. -/
  | dispatch {cpu : Fin cpuCount} {pid : Pid} {b : Board} {chosen : Option (Fin slotCount)}
      (hop : m.futexOp = .none) (he : m.event = .schedule cpu)
      (ha : m.answer = .decided (.run pid)) (h : Lapses m.before.clock.now m.before.board b)
      (hd : Dispatch pid (b.released cpu chosen) m.after.board) : Course m
  /-- A process blocks in a call on messages. -/
  | asks {pid : Pid} {what : Option (Pid × Message)} (hop : m.futexOp = .none)
      (h : Ask m.before.clock.now pid what m.before.board m.after.board) : Course m
  /-- A message passes in a send. -/
  | sent {p r : Process} {args : SyscallArgs} (hop : m.futexOp = .none)
      (he : m.event = .syscall p.pid) (hf : m.after.board.futexes = m.before.board.futexes)
      (h : Handover m.before m.after.board p r args) : Course m
  /-- A message passes in a receive. -/
  | received {p s : Process} (hop : m.futexOp = .none) (he : m.event = .syscall p.pid)
      (hf : m.after.board.futexes = m.before.board.futexes)
      (h : Pickup m.before m.after.board p s) : Course m

section
variable {call : Syscall} {args : SyscallArgs} {a : Except Errno SyscallOutcome} {k₁ : Kernel}

/-- Events other than system calls say themselves which operation on futexes they ask for. -/
theorem askedOp_of_ne (he : ∀ pid, m.event ≠ .syscall pid) : m.askedOp = m.event.futexOp := by
  rw [askedOp]
  split
  · next heq _ => exact absurd heq (he _)
  · rfl

/-- Events other than system calls say themselves which signal they send. -/
theorem request?_of_ne (he : ∀ pid, m.event ≠ .syscall pid) : m.request? = m.event.request? := by
  rw [request?]
  split
  · next heq => exact absurd heq (he _)
  · rfl

/-- The count that an event other than a system call answers is its own. -/
theorem Counts.of_ne {n : Nat} (he : ∀ pid, m.event ≠ .syscall pid) (h : m.answer = .counted n) :
    m.Counts n := by
  rw [Counts]
  split
  · next heq => exact absurd heq (he _)
  · exact h

/-- The operation on futexes that a system call asks for is told by the call and its outcome. -/
theorem askedOp_of_answers {o : SyscallOutcome} (he : m.event = .syscall pid)
    (ha : m.answer = .served o) (h : m.before.Answers pid call args a k₁) :
    m.askedOp = call.futexOp pid args o := by
  rw [askedOp, he, ha]
  simp only [h.asked?]

/-- The signal that a system call sends is told by the call and its arguments. -/
theorem request?_of_answers (he : m.event = .syscall pid)
    (h : m.before.Answers pid call args a k₁) : m.request? = call.signal? pid args := by
  rw [request?, he]
  simp [h.asked?]

end

/-- A system call with an unknown number asks for no operation on futexes. -/
theorem askedOp_of_asksForNone {o : SyscallOutcome} (he : m.event = .syscall pid)
    (ha : m.answer = .served o) (h : m.before.AsksForNone pid) : m.askedOp = .none := by
  rw [askedOp, he, ha]
  simp only [h.asked?]

/-- The only event that wakes a futex by itself is the one named for it. -/
theorem eq_futexWake {e : Event} {address : UInt64} {most : Nat}
    (h : e.futexOp = .wake address most) : e = .futexWake address most := by
  cases e with
  | futexWake => cases h; rfl
  | _ => cases h

/-- What a system call that is served does is the course of its moment. -/
theorem course_of_outcome {call : Syscall} {args : SyscallArgs}
    {a : Except Errno SyscallOutcome} {k₁ : Kernel} {o : SyscallOutcome}
    (sound : m.before.board.Sound) (hr : m.before.board.Runs pid) (he : m.event = .syscall pid)
    (ha : m.answer = .served o) (ans : m.before.Answers pid call args a k₁)
    (ho : Outcome m.before.clock.now pid call args m.before.memory m.after.memory a m.before.board
      k₁.board)
    (ret : Kernel.Returns pid a o k₁.board m.after.board) : m.Course := by
  have hask : m.askedOp = call.futexOp pid args o := askedOp_of_answers he ha ans
  obtain ⟨p, hp, rfl, run⟩ := hr
  generalize k₁.board = b₁ at ho ret
  -- a call on messages does nothing to the queues
  have spared : call.sends = true ∨ call.receives = true → NoneDies m.before.board b₁ →
      m.futexOp = .none := by
    intro hcall hn
    rw [futexOp_of_noneDies sound (hn.trans ret.answered.noneDies), hask]
    refine Syscall.futexOp_of_ne ?_
    rintro rfl
    simp [Syscall.sends, Syscall.receives] at hcall
  cases ho with
  | deed _ _ hd count =>
    rw [← ret.outcome, ← hask, ← request?_of_answers he ans] at hd
    obtain ⟨d, hop⟩ := deed_of_does sound hd ret.answered
    rw [← ret.outcome, ← hask] at count
    have hsub : m.event.subject? = some p.pid := by
      rw [he]
      rfl
    refine .deed (hsub ▸ d) ret.answered hop fun address most hwake => ?_
    rw [Counts, he]
    dsimp only
    rw [ha, ret.outcome, count address most hwake]
    rfl
  | refused hc =>
    have hop := spared hc (.refl _)
    have hasked := futexOp_eq_none hop
    refine .deed (hop ▸ .lapses .refl) ret.answered (absurd hasked) fun address most hwake => ?_
    cases hasked.symm.trans hwake
  | asksToSend hs _ hask | asksToReceive hs hask =>
    obtain ⟨-, rfl⟩ := ret.of_none rfl
    exact .asks (spared (by simp [hs]) hask.noneDies) hask
  | sent hs ht hpass =>
    obtain ⟨r, hand⟩ := Handover.of_pass hp run ans hs ht hpass ret
    exact .sent (spared (.inl hs) hpass.noneDies) he (ret.answered.futexes.trans hpass.futexes) hand
  | received hc hpass =>
    obtain ⟨s, pick⟩ := Pickup.of_pass hp run ans hc hpass ret
    exact .received (spared (.inr hc) hpass.noneDies) he (ret.answered.futexes.trans hpass.futexes)
      pick

/-- What an event does is the course of its moment. -/
theorem course (h : Effect m.before m.event m.answer m.after) (sound : m.before.board.Sound)
    (allowed : m.event.Allowed m.before) : m.Course := by
  -- an event in which nobody dies does to the queues what it asks for
  have spared : m.askedOp = .none → NoneDies m.before.board m.after.board → m.futexOp = .none :=
    fun hop hn => (futexOp_of_noneDies sound hn).trans hop
  generalize he : m.event = e at h allowed
  generalize ha : m.answer = a at h
  cases h with
  | deed hne hd count =>
    rw [← he] at hd hne count
    rw [← request?_of_ne hne, ← askedOp_of_ne hne] at hd
    obtain ⟨d, hop⟩ := deed_of_does sound hd .none
    refine .deed d .none hop fun address most hwake => .of_ne hne ?_
    exact ha.trans (count _ _ (eq_futexWake ((askedOp_of_ne hne).symm.trans hwake)))
  | turnover hne hop ht =>
    exact .turnover (spared ((askedOp_of_ne (he ▸ hne)).trans (he ▸ hop)) ht.noneDies) ht
  | idle hl hb =>
    refine .idle (spared ?_ ?_) hl hb
    · rw [askedOp_of_ne (by simp [he]), he]
      rfl
    · exact hb ▸ hl.noneDies.trans (.released _ _ _)
  | dispatch hl hd =>
    refine .dispatch (spared ?_ ?_) he ha hl hd
    · rw [askedOp_of_ne (by simp [he]), he]
      rfl
    · exact hl.noneDies.trans ((NoneDies.released _ _ _).trans hd.noneDies)
  | unknown hnone hr =>
    have hop : m.askedOp = .none := askedOp_of_asksForNone he ha hnone
    refine .deed (spared hop hr.answered.noneDies ▸ .lapses .refl) hr.answered (absurd hop)
      fun address most hwake => ?_
    cases hop.symm.trans hwake
  | served ans ho hm hr =>
    rw [← hm] at ho
    exact course_of_outcome sound (Kernel.status_eq_running.1 allowed) he ha ans ho hr

end Moment

namespace Run

variable {clock : Clock} {ms : List Moment} {k : Kernel}

/-- Every moment of a run takes its course, from a board in order to one in order. -/
theorem course (run : Run (.boot clock) ms k) {i : Nat} {m : Moment} (h : ms[i]? = some m) :
    m.before.board.Sound ∧ m.after.board.Sound ∧ m.Course := by
  obtain ⟨sound, allowed, heffect⟩ := run.effect h
  exact ⟨sound, heffect.sound sound, m.course heffect sound allowed⟩

end Run

end SyncKernel
