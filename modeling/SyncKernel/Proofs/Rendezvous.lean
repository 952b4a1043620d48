import SyncKernel.Proofs.Meeting

/-!
# Both sides of a message

A moment in which a receive ends with a message (`Moment.Received`) is one in which a send of that
message ends with success (`Moment.Sent`), and the other way round (`Moment.received_iff_sent`). An
event is calm, which is to say that no blocked call on messages ends but with an error and no call
on messages succeeds, or it is a system call in which one message passes (`Effect.traffic`).
-/

namespace SyncKernel

namespace Process

variable {p p' : Process}

/-- If the process was blocked in a call on messages, it still is, or the call did not succeed. -/
structure Calm (p p' : Process) : Prop where
  receives : p.Receives → p'.Receives ∨ p'.receive.sender = none
  sends : p.Sends → p'.Sends ∨ p'.frame.get .a0 ≠ 0 ∨ p'.status = .dying

/-- A blocked process that is left as it is does not succeed. -/
theorem Calm.of_blocked (h : p.status = .blocked → p' = p) : p.Calm p' where
  receives hr := by
    rw [h hr.1]
    exact .inl hr
  sends hs := by
    rw [h hs.1]
    exact .inl hs

/-- What moves do to a record ends no call on messages but with an error. -/
theorem Drift.calm (hd : p.Drift p') (h : p.Settled) : p.Calm p' where
  receives hr := .inr (hd.sender (h.sender hr.2))
  sends hs := by
    rcases hd.ended hs with ⟨hs', -⟩ | ⟨-, hne⟩ | hdying
    · exact .inl hs'
    · exact .inr (.inl hne)
    · exact .inr (.inr hdying)

end Process

namespace Board

variable {b b' b₁ : Board} {p q : Process} {pid : Pid} {now : Millis}

/-- No blocked call on messages ends but with an error. -/
def Calm (b b' : Board) : Prop :=
  ∀ i p p', b.procs.at? i = some p → b'.procs.at? i = some p' → p.Calm p'

/-- Moves end no call on messages but with an error. -/
theorem Drifts.calm (hd : Drifts b b') (h : b.Sound) : Calm b b' := fun i p p' hp hp' => by
  obtain ⟨q, hq, hdrift⟩ := hd.exists_after hp
  cases hq.symm.trans hp'
  exact hdrift.calm (h.table.settled i p hp)

/-- A process that comes or goes leaves the others that are not dying as they are. -/
theorem Turnover.at?_of_live (m : Turnover b b') {i : Fin slotCount}
    (hp : b.procs.at? i = some p) (live : p.status ≠ .dying) : b'.procs.at? i = some p := by
  cases m with
  | reclaim hr =>
    obtain ⟨q, hget, dying, -, hat⟩ := ProcessTable.reclaim_ok hr
    have hq := (ProcessTable.get?_eq_some.1 hget).1
    rw [hat, if_neg, hp]
    rintro rfl
    cases hq.symm.trans hp
    exact live dying
  | @enter pid space frame _ ha =>
    obtain ⟨hfree, rfl⟩ := ProcessTable.alloc_ok ha
    have hi : pid.slot ≠ i := by
      rintro rfl
      cases hfree.symm.trans hp
    exact (ProcessTable.at?_put_of_ne (p := { pid, frame, space }) hi).trans hp

/-- A process that comes or goes ends no call. -/
theorem Turnover.calm (m : Turnover b b') : Calm b b' := fun i p p' hp hp' =>
  .of_blocked fun hb => by
    rw [m.at?_of_live hp (by simp [hb])] at hp'
    exact (Option.some.inj hp').symm

/-- Only the record of the caller, which runs, changes when it blocks in a call on messages. -/
theorem Ask.at?_of_ne {what : Option (Pid × Message)} (m : Ask now pid what b b')
    {i : Fin slotCount} (hi : pid.slot ≠ i) : b'.procs.at? i = b.procs.at? i := by
  cases m with
  | receive _ hpid _ _ _ _ _ _ | send _ hpid _ _ _ _ _ _ =>
    subst hpid
    refine ProcessTable.at?_put_of_ne ?_
    exact hi

/-- Who blocks in a call on messages ran before. -/
theorem Ask.runs {what : Option (Pid × Message)} (m : Ask now pid what b b') : b.Runs pid := by
  cases m with
  | receive hp hpid run _ _ _ _ _ => exact ⟨_, hp, hpid, run⟩
  | send hp hpid run _ _ _ _ _ => exact ⟨_, hp, hpid, run⟩

/-- Blocking in a call on messages ends no call. -/
theorem Ask.calm {what : Option (Pid × Message)} (m : Ask now pid what b b') : Calm b b' :=
  fun i p p' hp hp' => .of_blocked fun hb => by
    obtain ⟨q, hq, rfl, run⟩ := m.runs
    have hi : q.pid.slot ≠ i := by
      rintro rfl
      cases hq.symm.trans hp
      cases run.symm.trans hb
    rw [m.at?_of_ne hi, hp] at hp'
    cases hp'
    rfl

/-- Taking up a process leaves the others, and changes only its status, processor and count of runs.
-/
theorem Dispatch.at?_cases (m : Dispatch pid b b') {i : Fin slotCount}
    (hq : b.procs.at? i = some q) :
    b'.procs.at? i = some q ∨ q.pid = pid ∧ q.status ≠ .blocked ∧ q.status ≠ .dying ∧
      ∃ cpu, b'.procs.at? i = some { q with status := .running, cpu, runs := q.runs + 1 } := by
  cases m with
  | @run p cpu hp hpid can =>
    by_cases hi : p.pid.slot = i
    · subst hi
      cases hp.symm.trans hq
      have hne : ∀ s, s = .blocked ∨ s = .dying → q.status ≠ s := by
        rintro s (rfl | rfl) hs <;> simp [Process.canRunOn, hs] at can
      exact .inr ⟨hpid, hne _ (.inl rfl), hne _ (.inr rfl), _, ProcessTable.at?_put_self⟩
    · refine .inl ((ProcessTable.at?_put_of_ne ?_).trans hq)
      exact hi

/-- Moves and then taking up a process end no call on messages but with an error. -/
theorem Drifts.calm_dispatch (hd : Drifts b b₁) (m : Dispatch pid b₁ b') (h : b.Sound) :
    Calm b b' :=
  fun i p p' hp hp' => by
    obtain ⟨q, hq, hdrift⟩ := hd.exists_after hp
    have hcalm : p.Calm q := hdrift.calm (h.table.settled i p hp)
    obtain hsame | ⟨-, hnb, hnd, cpu, hq'⟩ := m.at?_cases hq
    · cases hsame.symm.trans hp'
      exact hcalm
    · cases hq'.symm.trans hp'
      constructor
      · intro hr
        exact .inr ((hcalm.receives hr).resolve_left fun hr' => hnb hr'.1)
      · intro hs
        rcases hcalm.sends hs with hs' | hne | hdying
        · exact absurd hs'.1 hnb
        · exact .inr (.inl hne)
        · exact absurd hdying hnd

end Board

/-! ## What passes in an event -/

open Board

/-- A call is answered in one way. -/
theorem Kernel.Answers.unique {k k₁ k₂ : Kernel} {pid : Pid} {call call' : Syscall}
    {args args' : SyscallArgs} {a a' : Except Errno SyscallOutcome}
    (h : k.Answers pid call args a k₁) (h' : k.Answers pid call' args' a' k₂) :
    call = call' ∧ args = args' ∧ a = a' := by
  obtain ⟨p, hp, hcall, rfl, hserve⟩ := h
  obtain ⟨q, hq, hcall', rfl, hserve'⟩ := h'
  cases hp.symm.trans hq
  cases hcall.symm.trans hcall'
  cases hserve.symm.trans hserve'
  exact ⟨rfl, rfl, rfl⟩

/-- Only a call that returns 0 is left with the word 0, for the words of errors are others. -/
theorem returnWord_eq_zero {a : Except Errno SyscallOutcome} (h : returnWord a = some 0) :
    a = .ok (.returned 0) := by
  cases a with
  | error e => exact absurd (Option.some.inj h) e.toWord_ne_zero
  | ok o =>
    cases o with
    | returned value => rw [Option.some.inj h]
    | blocked | yielded | restored | exited => cases h

/-- Every process that is blocked stays as it is, but for the one in the slot `i`. -/
def Board.SparesBut (i : Fin slotCount) (b b' : Board) : Prop :=
  ∀ j q, b.procs.at? j = some q → q.status = .blocked → i ≠ j → b'.procs.at? j = some q

/-- A send of the process `p` with the arguments `args` hands its message to the process `r`, which
waits for one. -/
structure Handover (k : Kernel) (b' : Board) (p r : Process) (args : SyscallArgs) : Prop where
  answered : ∃ call k', k.Answers p.pid call args (.ok (.returned 0)) k' ∧ call.sends = true
  target : p.pid.resolve args.a0 = .ok r.pid
  receiver : k.board.procs.at? r.pid.slot = some r
  wait : r.Receives
  handed : ∃ size perm, b'.procs.at? r.pid.slot = some (r.handed p.pid args.a1 size perm)
  spares : k.board.SparesBut r.pid.slot b'

/-- A receive of the process `p` takes the message of the process `s`, which waits to send it. -/
structure Pickup (k : Kernel) (b' : Board) (p s : Process) : Prop where
  answered : ∃ call args k', call.receives = true ∧
    k.Answers p.pid call args (.ok (.returned s.send.message.value)) k'
  sender : k.board.procs.at? s.pid.slot = some s
  wait : s.SendsTo p.pid
  sent : b'.procs.at? s.pid.slot = some (s.unsent 0)
  received : ∃ q, b'.procs.at? p.pid.slot = some q ∧ q.pid = p.pid ∧
    q.receive.sender = some s.pid ∧ q.receive.value = s.send.message.value
  spares : k.board.SparesBut s.pid.slot b'

/-- The messages that pass in an event: none, or one. -/
inductive Traffic (k : Kernel) (b' : Board) : Event → Prop where
  /-- No blocked call on messages succeeds, and the event is no call on messages that does. -/
  | calm {e : Event} (calm : Calm k.board b')
      (silent : ∀ pid call args value k', e = .syscall pid →
        k.Answers pid call args (.ok (.returned value)) k' →
        call.sends = false ∧ call.receives = false) : Traffic k b' e
  /-- A message passes in a send. -/
  | sent {p r : Process} {args : SyscallArgs} (h : Handover k b' p r args) :
      Traffic k b' (.syscall p.pid)
  /-- A message passes in a receive. -/
  | received {p s : Process} (h : Pickup k b' p s) : Traffic k b' (.syscall p.pid)

section
variable {k k' : Kernel} {b b' : Board} {p : Process} {call : Syscall} {args : SyscallArgs}
  {o : SyscallOutcome} {value : UInt64}

/-- A message that passes from a caller is handed to a process that waits for one. -/
theorem Handover.of_pass {target : Pid} (hp : k.board.procs.at? p.pid.slot = some p)
    (run : p.status = .running) (ans : k.Answers p.pid call args (.ok (.returned 0)) k')
    (hs : call.sends = true) (ht : p.pid.resolve args.a0 = .ok target)
    (hpass : Pass p.pid target args.a1 k.board b)
    (hr : Kernel.Returns p.pid (.ok (.returned 0)) o b b') : ∃ r, Handover k b' p r args := by
  obtain ⟨r, hrat, rfl, wait, ⟨size, perm, hafter⟩, hothers⟩ := hpass.delivered hp run
  obtain ⟨rfl, -, -, -, -, -, hothers'⟩ := hr.of_some rfl
  have awake : ∀ {i q}, k.board.procs.at? i = some q → q.status = .blocked → p.pid.slot ≠ i :=
    fun hq hb => ProcessTable.slot_ne hp hq (by simp [run, hb])
  refine ⟨r, ⟨call, k', ans, hs⟩, ht, hrat, wait, ⟨size, perm, ?_⟩, fun i q hq hb hi => ?_⟩
  · exact (hothers' _ (awake hrat wait.1)).trans hafter
  · exact (hothers' i (awake hq hb)).trans ((hothers i hi).trans hq)

/-- A message that passes to a caller is taken from a process that waits to send it. -/
theorem Pickup.of_pass {sender : Pid} (hp : k.board.procs.at? p.pid.slot = some p)
    (run : p.status = .running) (ans : k.Answers p.pid call args (.ok (.returned value)) k')
    (hc : call.receives = true) (hpass : Pass sender p.pid value k.board b)
    (hr : Kernel.Returns p.pid (.ok (.returned value)) o b b') : ∃ s, Pickup k b' p s := by
  obtain ⟨s, hsat, wait, -, rfl, rfl, hsent, ⟨r, hrat, hpid, -, hsender, hvalue⟩, hothers⟩ :=
    hpass.fetched hp run
  obtain ⟨rfl, q, hq, -, -, hafter, hothers'⟩ := hr.of_some rfl
  cases hrat.symm.trans hq
  have awake : ∀ {i q}, k.board.procs.at? i = some q → q.status = .blocked → p.pid.slot ≠ i :=
    fun hq hb => ProcessTable.slot_ne hp hq (by simp [run, hb])
  refine ⟨s, ⟨call, args, k', hc, ans⟩, hsat, wait, ?_, ⟨_, hafter, hpid, hsender, hvalue⟩,
    fun i q hq hb hi => ?_⟩
  · exact (hothers' _ (awake hsat wait.1)).trans hsent
  · have hne := awake hq hb
    exact (hothers' i hne).trans ((hothers i hi hne).trans hq)

end

section
variable {k k' : Kernel} {e : Event} {a : Answer}

/-- At most one message passes in an event. -/
theorem Effect.traffic (m : Effect k e a k') (h : k.board.Sound) (allowed : e.Allowed k) :
    Traffic k k'.board e := by
  -- moves and a refusal leave no call on messages that succeeds
  have moved : ∀ {b₁ : Board}, Moves k.clock.now k.board b₁ → Calm k.board b₁ :=
    fun hm => (hm.drifts h).calm h
  cases m with
  | deed he hd _ => exact .calm (moved hd.moves) fun pid _ _ _ _ hpid => absurd hpid (he pid)
  | turnover he _ ht => exact .calm ht.calm fun pid _ _ _ _ hpid => absurd hpid (he pid)
  | idle hl hb => exact .calm (moved (hb ▸ hl.moves.tail (.release _ _))) nofun
  | dispatch hl hd =>
    exact .calm ((Moves.drifts (hl.moves.tail (.release _ _)) h).calm_dispatch hd h) nofun
  | unknown hnone hr =>
    refine .calm (moved (hr.moves _)) fun pid call args value k₁ hpid ans => ?_
    cases hpid
    obtain ⟨p, hp, hcall⟩ := hnone
    obtain ⟨q, hq, hcall', -⟩ := ans
    cases hp.symm.trans hq
    cases hcall.symm.trans hcall'
  | @served pid call args a k₁ o _ ans ho _ hr =>
    -- any other answer to the call would be the same
    have silent : (∀ value, a ≠ .ok (.returned value)) ∨
        call.sends = false ∧ call.receives = false →
        ∀ pid' call' args' value k₂, Event.syscall pid = .syscall pid' →
          k.Answers pid' call' args' (.ok (.returned value)) k₂ →
          call'.sends = false ∧ call'.receives = false := by
      intro hsilent pid' call' args' value k₂ hpid ans'
      cases hpid
      obtain ⟨rfl, -, rfl⟩ := ans.unique ans'
      exact hsilent.resolve_left fun hne => hne value rfl
    obtain ⟨p, hp, rfl, run⟩ := Kernel.status_eq_running.1 allowed
    generalize k₁.board = b₁ at ho hr
    cases ho with
    | deed hs hc hd _ =>
      exact .calm (moved (hd.moves.trans (hr.moves _))) (silent (.inr ⟨hs, hc⟩))
    | refused => exact .calm (moved (hr.moves _)) (silent (.inl nofun))
    | asksToSend _ _ hask | asksToReceive _ hask =>
      obtain ⟨-, rfl⟩ := hr.of_none rfl
      exact .calm hask.calm (silent (.inl nofun))
    | sent hs ht hpass =>
      obtain ⟨r, hand⟩ := Handover.of_pass hp run ans hs ht hpass hr
      exact .sent hand
    | received hc hpass =>
      obtain ⟨s, pick⟩ := Pickup.of_pass hp run ans hc hpass hr
      exact .received pick

end

/-! ## Both sides of a message -/

namespace Moment

/-- In this moment a system call of the process `pid` is answered. -/
def Answers (m : Moment) (pid : Pid) (call : Syscall) (args : SyscallArgs)
    (answer : Except Errno SyscallOutcome) : Prop :=
  m.event = .syscall pid ∧ ∃ k, m.before.Answers pid call args answer k

/-- In this moment a receive of the process `t` ends with the message `v` of the process `s`. -/
inductive Received (m : Moment) (s t : Pid) (v : UInt64) : Prop where
  /-- The process waited for a message. -/
  | waited {p p' : Process} (before : m.before.procs.get? t = some p) (wait : p.Receives)
      (after : m.after.procs.get? t = some p') (ended : ¬ p'.Receives)
      (sender : p'.receive.sender = some s) (value : p'.receive.value = v)
  /-- The process calls for a message and does not have to wait. -/
  | atOnce {p' : Process} {call : Syscall} {args : SyscallArgs} {word : UInt64}
      (answer : m.Answers t call args (.ok (.returned word))) (receives : call.receives = true)
      (after : m.after.procs.get? t = some p') (sender : p'.receive.sender = some s)
      (value : p'.receive.value = v)

/-- In this moment a send of the message `v` by the process `s` to the process `t` ends with
success. -/
inductive Sent (m : Moment) (s t : Pid) (v : UInt64) : Prop where
  /-- The process waited to send. -/
  | waited {p p' : Process} (before : m.before.procs.get? s = some p) (wait : p.SendsTo t)
      (message : p.send.message.value = v) (after : m.after.procs.get? s = some p')
      (live : p'.status ≠ .dying) (ended : p'.send = {}) (result : p'.frame.get .a0 = 0)
  /-- The process calls for the message to be sent and does not have to wait. -/
  | atOnce {call : Syscall} {args : SyscallArgs}
      (answer : m.Answers s call args (.ok (.returned 0))) (sends : call.sends = true)
      (target : s.resolve args.a0 = .ok t) (value : args.a1 = v)

section
variable {m : Moment}

/-- In a moment one call is answered at most, and in one way. -/
theorem Answers.unique {pid pid' : Pid} {call call' : Syscall} {args args' : SyscallArgs}
    {a a' : Except Errno SyscallOutcome} (h : m.Answers pid call args a)
    (h' : m.Answers pid' call' args' a') :
    pid = pid' ∧ call = call' ∧ args = args' ∧ a = a' := by
  obtain ⟨he, _, h⟩ := h
  obtain ⟨he', _, h'⟩ := h'
  cases he.symm.trans he'
  exact ⟨rfl, h.unique h'⟩

end

end Moment

/-- A process whose sending side is new does not wait to send. -/
theorem Process.not_sends_of_new {p : Process} (h : p.send = {}) : ¬ p.Sends := fun hs => by
  have hsending := hs.2
  rw [h] at hsending
  cases hsending

/-- No call both sends and receives. -/
theorem Syscall.receives_eq_false {call : Syscall} (h : call.sends = true) :
    call.receives = false := by
  cases call with
  | trySend | sendTimeout => rfl
  | _ => cases h

section
variable {m : Moment} {s t : Pid} {v : UInt64}

namespace Handover

variable {p r : Process} {args : SyscallArgs} (h : Handover m.before m.after.board p r args)
  (he : m.event = .syscall p.pid)
include h he

/-- The call of a process that hands over its message is a send, answered with 0. -/
theorem answers : ∃ call, call.sends = true ∧ m.Answers p.pid call args (.ok (.returned 0)) := by
  obtain ⟨call, k, ans, hs⟩ := h.answered
  exact ⟨call, hs, he, k, ans⟩

/-- What is received is the message handed over. -/
theorem received_iff : m.Received s t v ↔ s = p.pid ∧ t = r.pid ∧ args.a1 = v := by
  obtain ⟨size, perm, hafter⟩ := h.handed
  constructor
  · intro hrcv
    cases hrcv with
    | @waited q q' before wait after ended sender value =>
      obtain ⟨hq, rfl⟩ := ProcessTable.get?_eq_some.1 before
      obtain ⟨hq', -⟩ := ProcessTable.get?_eq_some.1 after
      by_cases hi : r.pid.slot = q.pid.slot
      · rw [← hi] at hq hq'
        cases h.receiver.symm.trans hq
        cases hafter.symm.trans hq'
        cases sender
        exact ⟨rfl, rfl, value⟩
      · cases (h.spares _ _ hq wait.1 hi).symm.trans hq'
        exact absurd wait ended
    | atOnce answer receives =>
      obtain ⟨call, sends, answer'⟩ := h.answers he
      obtain ⟨rfl, rfl, -⟩ := answer.unique answer'
      cases receives.symm.trans (Syscall.receives_eq_false sends)
  · rintro ⟨rfl, rfl, rfl⟩
    exact .waited (ProcessTable.get?_eq_some.2 ⟨h.receiver, rfl⟩) h.wait
      (ProcessTable.get?_eq_some.2 ⟨hafter, rfl⟩) nofun rfl rfl

/-- What is sent is the message handed over. -/
theorem sent_iff (hr : r.Settled) :
    m.Sent s t v ↔ s = p.pid ∧ t = r.pid ∧ args.a1 = v := by
  obtain ⟨call, sends, answer'⟩ := h.answers he
  constructor
  · intro hsent
    cases hsent with
    | @waited q q' before wait message after live ended result =>
      obtain ⟨hq, rfl⟩ := ProcessTable.get?_eq_some.1 before
      obtain ⟨hq', -⟩ := ProcessTable.get?_eq_some.1 after
      by_cases hi : r.pid.slot = q.pid.slot
      · rw [← hi] at hq
        cases h.receiver.symm.trans hq
        exact absurd h.wait (hr.not_receives wait.sends)
      · cases (h.spares _ _ hq wait.1 hi).symm.trans hq'
        exact absurd wait.sends (Process.not_sends_of_new ended)
    | atOnce answer _ target value =>
      obtain ⟨rfl, rfl, rfl, -⟩ := answer.unique answer'
      cases target.symm.trans h.target
      exact ⟨rfl, rfl, value⟩
  · rintro ⟨rfl, rfl, rfl⟩
    exact .atOnce answer' sends h.target rfl

end Handover

namespace Pickup

variable {p q : Process} (h : Pickup m.before m.after.board p q) (he : m.event = .syscall p.pid)
include h he

/-- The call of a process that takes a message is a receive, answered with its word. -/
theorem answers : ∃ call args, call.receives = true ∧
    m.Answers p.pid call args (.ok (.returned q.send.message.value)) := by
  obtain ⟨call, args, k, hr, ans⟩ := h.answered
  exact ⟨call, args, hr, he, k, ans⟩

/-- What is received is the message taken. -/
theorem received_iff (hq : q.Settled) :
    m.Received s t v ↔ s = q.pid ∧ t = p.pid ∧ q.send.message.value = v := by
  obtain ⟨call, args, receives, answer'⟩ := h.answers he
  obtain ⟨p', hp', hpid, hsender, hvalue⟩ := h.received
  constructor
  · intro hrcv
    cases hrcv with
    | @waited r r' before wait after ended =>
      obtain ⟨hr, rfl⟩ := ProcessTable.get?_eq_some.1 before
      obtain ⟨hr', -⟩ := ProcessTable.get?_eq_some.1 after
      by_cases hi : q.pid.slot = r.pid.slot
      · rw [← hi] at hr
        cases h.sender.symm.trans hr
        exact absurd wait (hq.not_receives h.wait.sends)
      · cases (h.spares _ _ hr wait.1 hi).symm.trans hr'
        exact absurd wait ended
    | atOnce answer _ after sender value =>
      obtain ⟨rfl, -⟩ := answer.unique answer'
      cases hp'.symm.trans (ProcessTable.get?_eq_some.1 after).1
      cases hsender.symm.trans sender
      exact ⟨rfl, rfl, hvalue.symm.trans value⟩
  · rintro ⟨rfl, rfl, rfl⟩
    exact .atOnce answer' receives (ProcessTable.get?_eq_some.2 ⟨hp', hpid⟩) hsender hvalue

/-- What is sent is the message taken. -/
theorem sent_iff : m.Sent s t v ↔ s = q.pid ∧ t = p.pid ∧ q.send.message.value = v := by
  constructor
  · intro hsent
    cases hsent with
    | @waited r r' before wait message after live ended result =>
      obtain ⟨hr, rfl⟩ := ProcessTable.get?_eq_some.1 before
      obtain ⟨hr', -⟩ := ProcessTable.get?_eq_some.1 after
      by_cases hi : q.pid.slot = r.pid.slot
      · rw [← hi] at hr
        cases h.sender.symm.trans hr
        cases h.wait.2.2.symm.trans wait.2.2
        exact ⟨rfl, rfl, message⟩
      · cases (h.spares _ _ hr wait.1 hi).symm.trans hr'
        exact absurd wait.sends (Process.not_sends_of_new ended)
    | atOnce answer sends _ _ =>
      obtain ⟨call, args, receives, answer'⟩ := h.answers he
      obtain ⟨rfl, rfl, -⟩ := answer.unique answer'
      cases receives.symm.trans (Syscall.receives_eq_false sends)
  · rintro ⟨rfl, rfl, rfl⟩
    exact .waited (ProcessTable.get?_eq_some.2 ⟨h.sender, rfl⟩) h.wait rfl
      (ProcessTable.get?_eq_some.2 ⟨h.sent, rfl⟩) nofun rfl (TrapFrame.get_setReturn _ _)

end Pickup

namespace Moment

/-- Nothing is received in a calm moment, and nothing is sent. -/
theorem not_of_calm (calm : Calm m.before.board m.after.board)
    (silent : ∀ pid call args value, m.Answers pid call args (.ok (.returned value)) →
      call.sends = false ∧ call.receives = false) : ¬ m.Received s t v ∧ ¬ m.Sent s t v := by
  constructor
  · intro hrcv
    cases hrcv with
    | waited before wait after ended sender _ =>
      have hp := (ProcessTable.get?_eq_some.1 before).1
      have hp' := (ProcessTable.get?_eq_some.1 after).1
      rcases (calm _ _ _ hp hp').receives wait with wait' | none
      · exact ended wait'
      · cases none.symm.trans sender
    | atOnce answer receives => cases receives.symm.trans (silent _ _ _ _ answer).2
  · intro hsent
    cases hsent with
    | waited before wait _ after live ended result =>
      have hp := (ProcessTable.get?_eq_some.1 before).1
      have hp' := (ProcessTable.get?_eq_some.1 after).1
      rcases (calm _ _ _ hp hp').sends wait.sends with wait' | hne | dying
      · exact Process.not_sends_of_new ended wait'
      · exact hne result
      · exact live dying
    | atOnce answer sends => cases sends.symm.trans (silent _ _ _ _ answer).1

/-- What is received is sent, and what is sent is received. -/
theorem received_iff_sent (h : m.before.board.Sound)
    (traffic : Traffic m.before m.after.board m.event) : m.Received s t v ↔ m.Sent s t v := by
  generalize he : m.event = e at traffic
  cases traffic with
  | calm calm silent =>
    obtain ⟨hr, hs⟩ := not_of_calm (m := m) (s := s) (t := t) (v := v) calm
      fun pid call args value ⟨he', k, ans⟩ => silent pid call args value k (he.symm.trans he') ans
    exact iff_of_false hr hs
  | sent hand => rw [hand.received_iff he, hand.sent_iff he (h.settled hand.receiver)]
  | received pick => rw [pick.received_iff he (h.settled pick.sender), pick.sent_iff he]

/-- The message of a send that is answered at once with 0 is received. -/
theorem received_of_answers (traffic : Traffic m.before m.after.board m.event) {call : Syscall}
    {args : SyscallArgs} (ans : m.Answers s call args (.ok (.returned 0)))
    (sends : call.sends = true) : ∃ t v, m.Received s t v := by
  generalize he : m.event = e at traffic
  cases traffic with
  | calm _ silent =>
    obtain ⟨he', k, ans⟩ := ans
    cases sends.symm.trans (silent _ _ _ _ k (he.symm.trans he') ans).1
  | @sent p r args' hand =>
    obtain ⟨_, _, ans'⟩ := hand.answers he
    obtain ⟨rfl, -⟩ := ans.unique ans'
    exact ⟨r.pid, args'.a1, (hand.received_iff he).2 ⟨rfl, rfl, rfl⟩⟩
  | received pick =>
    obtain ⟨_, _, receives, ans'⟩ := pick.answers he
    obtain ⟨-, rfl, -⟩ := ans.unique ans'
    cases receives.symm.trans (Syscall.receives_eq_false sends)

/-- The message of a send that waited and ends with 0 is received. -/
theorem received_of_ended (h : m.before.board.Sound)
    (traffic : Traffic m.before m.after.board m.event) {p p' : Process}
    (before : m.before.procs.get? s = some p) (wait : p.Sends)
    (after : m.after.procs.get? s = some p') (live : p'.status ≠ .dying) (ended : ¬ p'.Sends)
    (result : p'.frame.get .a0 = 0) : ∃ t v, m.Received s t v := by
  obtain ⟨hp, rfl⟩ := ProcessTable.get?_eq_some.1 before
  obtain ⟨hp', -⟩ := ProcessTable.get?_eq_some.1 after
  -- the process is the one that the event does not spare
  have spared : ∀ {i}, m.before.board.SparesBut i m.after.board → i = p.pid.slot := by
    intro i spares
    by_contra hi
    cases (spares _ _ hp wait.1 hi).symm.trans hp'
    exact ended wait
  generalize he : m.event = e at traffic
  cases traffic with
  | calm calm _ =>
    rcases (calm _ _ _ hp hp').sends wait with wait' | hne | dying
    · exact absurd wait' ended
    · exact absurd result hne
    · exact absurd dying live
  | @sent _ r _ hand =>
    have hr := hand.receiver
    rw [spared hand.spares] at hr
    cases hr.symm.trans hp
    exact absurd hand.wait ((h.settled hand.receiver).not_receives wait)
  | @received q s pick =>
    have hs := pick.sender
    rw [spared pick.spares] at hs
    cases hs.symm.trans hp
    exact ⟨q.pid, _, (pick.received_iff he (h.settled pick.sender)).2 ⟨rfl, rfl, rfl⟩⟩

end Moment

end

end SyncKernel
