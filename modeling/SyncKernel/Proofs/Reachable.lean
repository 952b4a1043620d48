import SyncKernel.Proofs.Run
import SyncKernel.Proofs.Serving
import SyncKernel.Proofs.Sweeping

/-!
# The kernels that runs lead to

`Effect` lists what an event does to the board: a deed, a turnover, the dispatch of a process, or a
system call with its outcome. `Event.perform_cases` says that from a board in order an event has one
of these effects, and that nothing can stop it but the end of a counter of runs. Each effect keeps
the invariant of the board and raises the bound on the counters at most by one, so both hold of
every kernel that a run leads to (`Run.sound`, `Run.runsAtMost`), every event of a run has an effect
(`Run.effect`), and no event stops before `2 ^ 64` calls of the scheduler (`Run.perform_ends`).
-/

namespace SyncKernel

open Board Step

section
variable {now : Millis} {pid : Pid} {call : Syscall} {args : SyscallArgs} {n : Nat}
  {a : Except Errno SyscallOutcome} {o : SyscallOutcome} {b b' : Board} {mem mem' : Memory}

/-- Every outcome of a call keeps the invariant. -/
theorem Outcome.sound (m : Outcome now pid call args mem mem' a b b') (h : b.Sound) : b'.Sound := by
  cases m with
  | deed _ _ hd _ => exact hd.moves.sound h
  | refused => exact h
  | sent _ _ hp => exact hp.sound h
  | received _ hp => exact hp.sound h
  | asksToSend _ _ ha => exact ha.sound h
  | asksToReceive _ ha => exact ha.sound h

/-- No outcome of a call is a run. -/
theorem Outcome.runsAtMost (m : Outcome now pid call args mem mem' a b b') (h : b.Sound)
    (hn : RunsAtMost n b) : RunsAtMost n b' := by
  cases m with
  | deed _ _ hd _ => exact (hd.moves.drifts h).runsAtMost hn
  | refused => exact hn
  | sent _ _ hp => exact hp.runsAtMost hn
  | received _ hp => exact hp.runsAtMost hn
  | asksToSend _ _ ha => exact ha.runsAtMost hn
  | asksToReceive _ ha => exact ha.runsAtMost hn

/-- The result of a call is put into the registers by a move. -/
theorem Kernel.Returns.moves (m : Returns pid a o b b') (now : Millis) : Moves now b b' := by
  cases m with
  | word _ hp _ run => exact .single (.own hp run (.answer _))
  | other => exact .refl

end

namespace Event

/-- The process that an event is about. -/
def subject? : Event → Option Pid
  | syscall pid | trapReturn pid | destroy pid => some pid
  | _ => none

/-- The signal that an event other than a system call sends. -/
def request? : Event → Option SignalRequest
  | sendSignal target n value => some ⟨target, n, value⟩
  | _ => none

/-- The operation on the futex queues that an event other than a system call is, unless a process is
destroyed in it. -/
def futexOp : Event → FutexOp
  | futexWake address most => .wake address most
  | _ => .none

end Event

/-- What an event does to the kernel `k`. -/
inductive Effect (k : Kernel) : Event → Answer → Kernel → Prop where
  /-- An event that is no system call is a deed, and a futex that is woken counts. -/
  | deed {e : Event} {a : Answer} {k' : Kernel} (he : ∀ pid, e ≠ .syscall pid)
      (h : Does k.clock.now e.subject? e.request? k.memory k'.memory e.futexOp k.board k'.board)
      (count : ∀ address most, e = .futexWake address most →
        a = .counted (min most (k.futexes.queue address).length)) : Effect k e a k'
  /-- A process comes or goes. -/
  | turnover {e : Event} {a : Answer} {k' : Kernel} (he : ∀ pid, e ≠ .syscall pid)
      (hop : e.futexOp = .none) (h : Turnover k.board k'.board) : Effect k e a k'
  /-- A processor lets go of its process after overdue receives were ended, and finds no other. -/
  | idle {cpu : Fin cpuCount} {d : Decision} {k' : Kernel} {b : Board}
      {chosen : Option (Fin slotCount)} (h : Lapses k.clock.now k.board b)
      (hb : k'.board = b.released cpu chosen) : Effect k (.schedule cpu) (.decided d) k'
  /-- A processor lets go of its process after overdue receives were ended, and takes up one. -/
  | dispatch {cpu : Fin cpuCount} {pid : Pid} {k' : Kernel} {b : Board}
      {chosen : Option (Fin slotCount)} (h : Lapses k.clock.now k.board b)
      (hd : Dispatch pid (b.released cpu chosen) k'.board) :
      Effect k (.schedule cpu) (.decided (.run pid)) k'
  /-- A system call has the number of no call. -/
  | unknown {pid : Pid} {o : SyscallOutcome} {k' : Kernel} (none : k.AsksForNone pid)
      (h : Kernel.Returns pid (.error .functionNotImplemented) o k.board k'.board) :
      Effect k (.syscall pid) (.served o) k'
  /-- A system call is served. -/
  | served {pid : Pid} {call : Syscall} {args : SyscallArgs} {a : Except Errno SyscallOutcome}
      {k₁ : Kernel} {o : SyscallOutcome} {k' : Kernel} (ans : k.Answers pid call args a k₁)
      (ho : Outcome k.clock.now pid call args k.memory k₁.memory a k.board k₁.board)
      (hm : k'.memory = k₁.memory) (hr : Kernel.Returns pid a o k₁.board k'.board) :
      Effect k (.syscall pid) (.served o) k'

section
variable {k k' : Kernel} {e : Event} {a : Answer}

/-- From a board in order, an event that is allowed has an effect, unless a processor asks for a
process and a counter of runs is at its end. -/
theorem Event.perform_cases (h : k.board.Sound) (allowed : e.Allowed k) :
    (e.isSchedule = true ∧ e.perform k = .error .runCountOverflow k ∧
        ∃ i p, k.board.procs.at? i = some p ∧ UInt64.size ≤ p.runs.toNat + 1) ∨
      Ends e.perform k fun a k' => Effect k e a k' := by
  have did : ∀ {a : Answer} {k' : Kernel}, (∀ pid, e ≠ .syscall pid) →
      (∀ address most, e ≠ .futexWake address most) →
      Kernel.Did e.subject? e.request? e.futexOp k k' → Effect k e a k' :=
    fun he hwake hd => .deed he hd.does fun address most heq => absurd heq (hwake address most)
  have still : ∀ {a : Answer} {k' : Kernel}, (∀ pid, e ≠ .syscall pid) → e.futexOp = .none →
      Lapses k.clock.now k.board k'.board → Effect k e a k' :=
    fun he hop hl => .deed he (hop ▸ (Deed.lapses hl).does)
      fun address most heq => by subst heq; cases hop
  have turned : ∀ {a : Answer} {k' : Kernel}, (∀ pid, e ≠ .syscall pid) → e.futexOp = .none →
      (k'.board = k.board ∨ Turnover k.board k'.board) → Effect k e a k' := by
    rintro a k' he hop (hb | ht)
    · exact still he hop (hb ▸ .refl)
    · exact .turnover he hop ht
  cases e with
  | schedule cpu =>
    obtain ⟨hs, hover⟩ | hs := Kernel.schedule_cases h allowed
    · refine .inl ⟨rfl, ?_, hover⟩
      simp [perform, Functor.map, EStateM.map, hs]
    · refine .inr (ends_map.2 (hs.mono fun d k' ⟨b, chosen, hl, hb⟩ => ?_))
      rcases hb with hb | ⟨pid, rfl, hd⟩
      · exact @Effect.idle k ⟨cpu, allowed⟩ d k' b chosen hl hb
      · exact @Effect.dispatch k ⟨cpu, allowed⟩ pid k' b chosen hl hd
  | spawn space frame =>
    exact .inr (ends_map.2 ((Kernel.spawn_ends space frame).mono fun _ _ => turned nofun rfl))
  | syscall pid =>
    refine .inr (ends_map.2 ((Kernel.syscall_ends h (Kernel.status_eq_running.1 allowed)).mono
      fun o k' ⟨_, ho⟩ => ?_))
    obtain ⟨hnone, hr⟩ | ⟨call, args, a, k₁, ans, ho, hm, hr⟩ := ho
    · exact .unknown hnone hr
    · exact .served ans ho hm hr
  | timerTick =>
    exact .inr (ends_map.2 ((Kernel.timerTick_ends h).mono fun _ _ hl => still nofun rfl hl.1))
  | sweep =>
    exact .inr (ends_map.2 ((Kernel.sweepNow_ends h).mono fun _ _ hl => still nofun rfl hl.1))
  | advance ms => exact .inr (ends_map.2 (ends_modify.2 (still nofun rfl .refl)))
  | setClock ms => exact .inr (ends_map.2 (ends_modify.2 (still nofun rfl .refl)))
  | trapReturn pid =>
    obtain ⟨p, hp, rfl, run⟩ := Kernel.status_eq_running.1 allowed
    exact .inr (ends_map.2 ((Kernel.trapReturn_ends h hp run).mono
      fun _ _ hd => did nofun nofun hd.1))
  | sendSignal target n value =>
    exact .inr (ends_map.2 ((Kernel.sendSignal_ends h target n value none).mono
      fun _ _ hd => did nofun nofun hd.1))
  | futexWake address most =>
    refine .inr (ends_map.2 ((Kernel.futexWake_ends h address most).mono
      fun count k' ⟨_, hcount, hw⟩ => ?_))
    refine .deed nofun (Deed.wakes _ _ hw).does fun address' most' heq => ?_
    cases heq
    rw [hcount]
  | destroy pid =>
    exact .inr (ends_map.2 ((Kernel.destroy_did h pid).mono fun _ _ hd => did nofun nofun hd.1))
  | reclaim pid =>
    exact .inr (ends_map.2 ((Kernel.reclaim_ends h pid).mono fun _ _ => turned nofun rfl))
  | registers pid frame =>
    obtain ⟨p, hget, run, hf⟩ := allowed
    obtain ⟨hp, rfl⟩ := ProcessTable.get?_eq_some.1 hget
    refine .inr (ends_map.2 (ends_modify.2 (did nofun nofun ⟨?_, rfl⟩)))
    rw [ProcessTable.update_eq_put hget rfl]
    exact (Deed.own hp run (.user frame hf)).does
  | memory m => exact .inr (ends_map.2 (ends_modify.2 (still nofun rfl .refl)))

namespace Effect

variable {n : Nat}

/-- A system call is answered with its outcome. -/
theorem served_of_syscall {pid : Pid} (m : Effect k (.syscall pid) a k') : ∃ o, a = .served o := by
  cases m with
  | deed he | turnover he => exact absurd rfl (he pid)
  | unknown | served => exact ⟨_, rfl⟩

/-- No event breaks the invariant of the board. -/
theorem sound (m : Effect k e a k') (h : k.board.Sound) : k'.board.Sound := by
  cases m with
  | deed _ hd _ => exact hd.moves.sound h
  | turnover _ _ ht => exact ht.sound h
  | idle hl hb => exact hb ▸ (hl.moves.sound h).released _ _
  | dispatch hl hd => exact hd.sound ((hl.moves.sound h).released _ _)
  | unknown _ hr => exact (hr.moves 0).sound h
  | served _ ho _ hr => exact (hr.moves 0).sound (ho.sound h)

/-- An event counts a run at most if a processor asks for a process. -/
theorem runsAtMost (m : Effect k e a k') (h : k.board.Sound) (hn : RunsAtMost n k.board) :
    RunsAtMost (n + e.isSchedule.toNat) k'.board := by
  have hle : n ≤ n + e.isSchedule.toNat := Nat.le_add_right _ _
  have moved : ∀ {b : Board}, Moves k.clock.now k.board b → RunsAtMost n b :=
    fun hm => (hm.drifts h).runsAtMost hn
  cases m with
  | deed _ hd _ => exact (moved hd.moves).mono hle
  | turnover _ _ ht => exact (ht.runsAtMost hn).mono hle
  | idle hl hb => exact (moved (hb ▸ hl.moves.tail (.release _ _))).mono hle
  | dispatch hl hd => exact hd.runsAtMost (moved (hl.moves.tail (.release _ _)))
  | unknown _ hr => exact (moved (hr.moves _)).mono hle
  | served _ ho _ hr =>
    have hd := (hr.moves 0).drifts (ho.sound h)
    exact (hd.runsAtMost (ho.runsAtMost h hn)).mono hle

end Effect

/-- An event that was allowed and did not stop had an effect. -/
theorem Event.effect (h : k.board.Sound) (allowed : e.Allowed k) (step : e.perform k = .ok a k') :
    Effect k e a k' := by
  obtain ⟨-, hstop, -⟩ | hends := e.perform_cases h allowed
  · rw [hstop] at step
    cases step
  · exact hends.of_eq step

end

/-! ## Runs -/

/-- The board of a kernel without processes is in order. -/
theorem Kernel.boot_sound (clock : Clock) : (Kernel.boot clock).board.Sound :=
  ⟨.empty, .empty⟩

namespace Run

variable {clock : Clock} {ms : List Moment} {k : Kernel}

/-- The board of every kernel that a run leads to is in order. -/
theorem sound (run : Run (.boot clock) ms k) : k.board.Sound := by
  induction run with
  | nil => exact Kernel.boot_sound clock
  | snoc _ allowed step ih => exact (Event.effect ih allowed step).sound ih

/-- Each event of a run happens on a board in order, is allowed there and has an effect. -/
theorem effect (run : Run (.boot clock) ms k) {i : Nat} {m : Moment} (h : ms[i]? = some m) :
    m.before.board.Sound ∧ m.event.Allowed m.before ∧
      Effect m.before m.event m.answer m.after := by
  obtain ⟨run', allowed, step⟩ := run.before h
  exact ⟨run'.sound, allowed, Event.effect run'.sound allowed step⟩

/-- No process was chosen more often than a processor asked for a process. -/
theorem runsAtMost (run : Run (.boot clock) ms k) : k.board.RunsAtMost (scheduleCount ms) := by
  induction run with
  | nil => exact fun _ _ h => nomatch h
  | @snoc ms k k' e a run allowed step ih =>
    have hcount : scheduleCount (ms ++ [⟨k, e, a, k'⟩]) =
        scheduleCount ms + e.isSchedule.toNat := by
      simp [scheduleCount, List.countP_append, List.countP_cons, Bool.toNat, cond_eq_ite]
    rw [hcount]
    exact (Event.effect run.sound allowed step).runsAtMost run.sound ih

/-- No event of a run stops before a processor has asked `2 ^ 64` times for a process. -/
theorem perform_ends (run : Run (.boot clock) ms k) {e : Event} (allowed : e.Allowed k)
    (hcount : scheduleCount ms + e.isSchedule.toNat < 2 ^ 64) :
    ∃ a k', e.perform k = .ok a k' := by
  obtain ⟨he, -, i, p, hp, hover⟩ | ⟨a, k', hstep, -⟩ := e.perform_cases run.sound allowed
  · have hle : p.runs.toNat ≤ scheduleCount ms := run.runsAtMost i p hp
    have hsize : UInt64.size = 2 ^ 64 := rfl
    rw [he, Bool.toNat_true, ← hsize] at hcount
    exact absurd (Nat.lt_of_le_of_lt (Nat.succ_le_succ hle) hcount) (Nat.not_lt.2 hover)
  · exact ⟨a, k', hstep⟩

end Run

end SyncKernel
