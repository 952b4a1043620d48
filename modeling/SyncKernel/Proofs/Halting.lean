import SyncKernel.Proofs.Deadlines
import SyncKernel.Proofs.Processors

/-!
# When nothing can happen any more

A processor that finds no process to run either waits or stops for good. Whether it is right to stop
is a question about what the other processors and the clock can still do. The decision is taken
after the processor let go of its own process, so then nobody is runnable and nobody runs on it
(`Kernel.schedule_rests`); what remains are processes on other processors and deadlines. That is
enough, because a process cannot wait to send without a deadline (`Kernel.SendsEnd`): with no
deadline at all, every process waits for another one, is dying, or waits for the outside world. Such
a table is `ProcessTable.Halted`. The clock has nothing to end in it, and a processor that asks
finds nothing and stops too, so it stays halted (`Kernel.halted_step`).
-/

namespace SyncKernel

open Board Step

/-! ## Sends end -/

/-- Every process that waits to send has a deadline. -/
def Kernel.SendsEnd (k : Kernel) : Prop :=
  ∀ i p, k.procs.at? i = some p → p.Sends → p.send.deadline.isSome

/-- No event makes a process wait to send without a deadline. -/
theorem Effect.sendsEnd {k k' : Kernel} {e : Event} {a : Answer} (m : Effect k e a k')
    (h : k.board.Sound) (ends : k.SendsEnd) : k'.SendsEnd := by
  intro i p' hp' hs'
  have kept : ∀ {b : Board}, NoneBegins k.board b → b.procs = k'.procs →
      p'.send.deadline.isSome := by
    intro b hb hprocs
    obtain ⟨p, hp, -, hs, hsend⟩ := hb i p' (hprocs ▸ hp') hs'
    exact hsend ▸ ends i p hp hs
  have moved : ∀ {b : Board}, Moves k.clock.now k.board b → NoneBegins k.board b :=
    fun hm => (hm.drifts h).noneBegins
  cases m with
  | deed _ hd _ => exact kept (moved hd.moves) rfl
  | turnover _ _ ht => exact kept ht.noneBlocks.noneBegins rfl
  | idle hl hb => exact kept (moved (hb ▸ hl.moves.tail (.release _ _))) rfl
  | dispatch hl hd =>
    exact kept ((moved (hl.moves.tail (.release _ _))).trans hd.noneBlocks.noneBegins) rfl
  | unknown _ hr => exact kept (moved (hr.moves _)) rfl
  | @served pid call args a k₁ o _ ans ho _ hr =>
    have returned : NoneBegins k₁.board k'.board :=
      ((hr.moves 0).drifts (ho.sound h)).noneBegins
    generalize k₁.board = b₁ at ho hr returned
    cases ho with
    | deed _ _ hd _ => exact kept ((moved hd.moves).trans returned) rfl
    | refused => exact kept returned rfl
    | sent _ _ hpass | received _ hpass =>
      exact kept (hpass.noneBlocks.noneBegins.trans returned) rfl
    | asksToReceive _ hask => exact kept ((hask.noneBegins h).trans returned) rfl
    | asksToSend _ _ hask =>
      obtain ⟨-, hb⟩ := hr.of_none rfl
      have hprocs : k'.procs = k'.board.procs := rfl
      rw [hprocs, hb] at hp'
      cases hask with
      | send =>
        rcases ProcessTable.at?_put_cases hp' with ⟨-, rfl⟩ | ⟨-, hp⟩
        · rfl
        · exact ends i p' hp hs'

section
variable {clock : Clock} {ms : List Moment} {k : Kernel}

/-- In a run every waiting send has a deadline. -/
theorem Run.sendsEnd (run : Run (.boot clock) ms k) : k.SendsEnd := by
  induction run with
  | nil => exact fun _ _ h => nomatch h
  | snoc run allowed step ih => exact (Event.effect run.sound allowed step).sendsEnd run.sound ih

/-- In a run a running process is the current one of its processor. -/
theorem Run.attached (run : Run (.boot clock) ms k) : k.Attached := by
  induction run with
  | nil => exact .boot clock
  | @snoc _ k k' e a _ _ step ih => exact e.attaches_perform k ih a k' step

end

/-! ## Finding no process -/

/-- The record of a process that does not run may lose its processor. -/
def Process.LetGo (p p' : Process) : Prop :=
  p' = p ∨ p.status ≠ .running ∧ p' = { p with cpu := none }

namespace Process.LetGo

variable {p p' q : Process}

instance : Std.Refl LetGo := ⟨fun _ => .inl rfl⟩

instance : IsTrans Process LetGo where
  trans := by
    rintro p q p' (rfl | ⟨hp, rfl⟩) (rfl | ⟨hq, rfl⟩)
    · exact .inl rfl
    · exact .inr ⟨hq, rfl⟩
    · exact .inr ⟨hp, rfl⟩
    · exact .inr ⟨hp, rfl⟩

theorem pid (h : p.LetGo p') : p'.pid = p.pid := by
  rcases h with rfl | ⟨-, rfl⟩ <;> rfl

theorem status (h : p.LetGo p') : p'.status = p.status := by
  rcases h with rfl | ⟨-, rfl⟩ <;> rfl

theorem frame (h : p.LetGo p') : p'.frame = p.frame := by
  rcases h with rfl | ⟨-, rfl⟩ <;> rfl

/-- A process that was let go can run where it could before. -/
theorem canRunOn (h : p.LetGo p') (cpu : Nat) : p'.canRunOn cpu = p.canRunOn cpu := by
  rcases h with rfl | ⟨hp, rfl⟩
  · rfl
  · unfold Process.canRunOn
    cases hs : p.status <;> simp_all

end Process.LetGo

namespace ProcessTable

variable {t : ProcessTable} {i : Fin slotCount} {p : Process} {cpu : Nat} {current : Option Pid}

/-- The circle passes every slot. -/
theorem mem_scanOrder (last : Option (Fin slotCount)) (i : Fin slotCount) : i ∈ scanOrder last := by
  have passes : ∀ start < slotCount, ∃ j : Fin slotCount, (start + j) % slotCount = i := by
    intro start hstart
    refine ⟨⟨(slotCount - start + i) % slotCount, Nat.mod_lt _ (by decide)⟩, ?_⟩
    have hstart : start < 256 := hstart
    have hi : (i : Nat) < 256 := i.isLt
    show (start + (256 - start + i) % 256) % 256 = i
    omega
  cases last with
  | none =>
    obtain ⟨j, hj⟩ := passes 0 (by decide)
    exact List.mem_map.2 ⟨j, List.mem_finRange j, Fin.ext hj⟩
  | some l =>
    obtain ⟨j, hj⟩ := passes ((l.val + 1) % slotCount) (Nat.mod_lt _ (by decide))
    exact List.mem_map.2 ⟨j, List.mem_finRange j, Fin.ext hj⟩

/-- A processor that chooses no process may run none. -/
theorem canRunOn_of_choose {last : Option (Fin slotCount)} (h : t.choose cpu last = none)
    (hp : t.at? i = some p) : p.canRunOn cpu = false := by
  have hnone := List.find?_eq_none.1 h i (mem_scanOrder last i)
  simpa [hp] using hnone

/-- A processor that may run nobody chooses nobody. -/
theorem choose_of_canRunOn {last : Option (Fin slotCount)}
    (h : ∀ i p, t.at? i = some p → p.canRunOn cpu = false) : t.choose cpu last = none := by
  refine List.find?_eq_none.2 fun i _ => ?_
  cases hp : t.at? i with
  | none => simp
  | some p => simp [h i p hp]

/-- A processor that found no process keeps all records as they are, except that it lets its own
process go. -/
theorem release_of_canRunOn (idle : ∀ i p, t.at? i = some p → p.canRunOn cpu = false) :
    t.Each Process.LetGo (t.release cpu current none) := by
  obtain heq | ⟨p, -, hp, hcpu, ⟨run, -, -⟩ | ⟨hrun, heq⟩⟩ :=
    release_cases (t := t) cpu current none
  · rw [heq]
    exact .refl t
  · have := idle _ p hp
    simp [Process.canRunOn, run, hcpu] at this
  · rw [heq]
    exact (Each.refl t).put hp (.inr ⟨hrun, rfl⟩)

end ProcessTable

namespace Population

variable {w w' : Population} {state state' : Cpu} {cpu : Nat} {now : Millis} {d : Decision}

/-- A processor that finds no process waits if something can still happen, and otherwise stops. -/
theorem schedule_rests {w₁ : Population} {n : Nat} (he : w.expireReceives now = .ok (n, w₁))
    (rest : w₁.procs.choose cpu state.lastSlot = none) :
    ∃ w', w.schedule state cpu now =
        .ok (if (w₁.procs.release cpu state.current none).canProgress cpu then .idle else .monitor,
          { state with current := none }, w') ∧
      w'.procs = w₁.procs.release cpu state.current none := by
  unfold schedule
  simp only [he, bind, Except.bind, rest, Option.bind_none]
  split
  · exact ⟨_, rfl, rfl⟩
  · exact ⟨_, rfl, rfl⟩

end Population

namespace Kernel

variable {k k' : Kernel} {cpu : Nat} {d : Decision}

/-- The decision of a processor that finds no process. -/
theorem schedule_rests (hcpu : cpu < cpuCount) {w : Population} {n : Nat}
    (he : k.expireReceives k.clock.now = .ok (n, w))
    (rest : w.procs.choose cpu k.cpus[cpu].lastSlot = none) :
    Ends (schedule cpu) k fun d k' => k'.procs = w.procs.release cpu k.cpus[cpu].current none ∧
      d = if k'.procs.canProgress cpu then .idle else .monitor := by
  obtain ⟨w', hs, hw'⟩ := Population.schedule_rests he rest
  rw [schedule, ends_bind, ends_get, dif_pos hcpu, hs]
  dsimp only
  rw [ends_bind, ends_set, ends_pure]
  exact ⟨hw', by rw [hw']⟩

/-- What a processor leaves behind that finds no process: nobody is runnable, and nobody runs on it.
-/
theorem rests_of_schedule (h : schedule cpu k = .ok d k') (hd : ∀ pid, d ≠ .run pid) :
    (∀ i p, k'.procs.at? i = some p → p.canRunOn cpu = false) ∧
      d = if k'.procs.canProgress cpu then .idle else .monitor := by
  obtain ⟨hcpu, n, w, state, he, hchoose, -⟩ := schedule_ok h
  generalize ht : k'.procs = t at hchoose
  cases hchoose with
  | run => exact absurd rfl (hd _)
  | rest rest =>
    obtain ⟨d', k'', hs, hprocs, hd'⟩ := schedule_rests hcpu he rest
    cases h.symm.trans hs
    refine ⟨fun i p hp => ?_, ht ▸ hd'⟩
    have none_can : ∀ i p, w.procs.at? i = some p → p.canRunOn cpu = false :=
      fun i p => ProcessTable.canRunOn_of_choose rest
    obtain ⟨p₀, hp₀, hsame⟩ := (ProcessTable.release_of_canRunOn none_can).exists_before hp
    rw [hsame.canRunOn, none_can i p₀ hp₀]

end Kernel

/-! ## What can still happen -/

/-- A process has a pending deadline exactly if it is blocked in a call on messages with one. -/
theorem Process.hasPendingDeadline_eq_true {p : Process} :
    p.hasPendingDeadline = true ↔ ∃ d, p.Due d := by
  simp only [hasPendingDeadline, Due, Receives, Sends, Bool.and_eq_true, Bool.or_eq_true,
    beq_iff_eq, Option.isSome_iff_exists]
  grind

/-- Something can still happen without a processor exactly if a process is runnable, runs elsewhere
or waits for a deadline. -/
theorem ProcessTable.canProgress_eq_true {t : ProcessTable} {cpu : Nat} :
    t.canProgress cpu = true ↔ ∃ p ∈ t.processes,
      p.status = .runnable ∨ (p.status = .running ∧ p.cpu ≠ some cpu) ∨ ∃ d, p.Due d := by
  simp only [canProgress, Bool.or_eq_true, List.any_eq_true, Process.hasPendingDeadline_eq_true,
    Bool.and_eq_true, beq_iff_eq, bne_iff_ne]
  grind

/-- The process cannot go on by itself, and no clock makes it go on. -/
structure Process.Stuck (p : Process) : Prop where
  runnable : p.status ≠ .runnable
  running : p.status ≠ .running
  sends : ¬ p.Sends
  due : ∀ d, ¬ p.Due d

/-- No process can go on by itself, and no clock makes one go on. -/
def ProcessTable.Halted (t : ProcessTable) : Prop :=
  ∀ i p, t.at? i = some p → p.Stuck

namespace Process

variable {p p' : Process} {t : ProcessTable} {now : Millis} {cpu : Nat}

namespace Stuck

/-- No processor may run a process that is stuck. -/
theorem canRunOn (h : p.Stuck) : p.canRunOn cpu = false := by
  have hrunnable := h.runnable
  have hrunning := h.running
  unfold Process.canRunOn
  cases hs : p.status <;> simp_all

/-- A stuck process is never overdue: its receive has no deadline, and it does not wait to send. -/
theorem not_overdue (h : p.Stuck) : ¬ p.Overdue t now p' := by
  intro ho
  cases ho with
  | expired hr late =>
    cases hd : p.receive.deadline with
    | none => simp [deadlineElapsed, hd] at late
    | some d => exact h.due d (.inl ⟨hr, hd⟩)
  | forsaken hs _ | gaveUp hs _ _ => exact h.sends hs.sends

/-- A stuck process that loses its processor is stuck. -/
theorem letGo (h : p.Stuck) (hg : p.LetGo p') : p'.Stuck := by
  rcases hg with rfl | ⟨-, rfl⟩
  · exact h
  · exact ⟨h.runnable, h.running, h.sends, h.due⟩

end Stuck

end Process

/-! ## Nothing happens any more -/

/-- Events that are no process's doing: a processor asks for its next process, the timer interrupts,
a sweep is made, or the clock moves. -/
def Event.Passive : Event → Prop
  | schedule cpu => cpu < cpuCount
  | timerTick | sweep | advance _ | setClock _ => True
  | _ => False

namespace ProcessTable.Halted

variable {t t' : ProcessTable}

/-- A halted table stays halted when processes lose their processors. -/
theorem letGo (h : t.Halted) (hg : t.Each Process.LetGo t') : t'.Halted := by
  intro i p' hp'
  obtain ⟨p, hp, hpg⟩ := hg.exists_before hp'
  exact (h i p hp).letGo hpg

/-- There is no call to end. -/
theorem lapses {b b' : Board} {now : Millis} (h : b.procs.Halted) (hl : Lapses now b b') :
    b' = b := by
  rcases hl.cases_head with rfl | ⟨_, ⟨hp, ho⟩, -⟩
  · rfl
  · exact absurd ho (h _ _ hp).not_overdue

/-- In a halted table no processor can make progress. -/
theorem canProgress (h : t.Halted) (cpu : Nat) : t.canProgress cpu = false := by
  rw [Bool.eq_false_iff, Ne, canProgress_eq_true]
  rintro ⟨p, hp, hcan⟩
  obtain ⟨i, hi⟩ := mem_processes.1 hp
  rcases hcan with hr | ⟨hr, -⟩ | ⟨d, hd⟩
  · exact (h i p hi).runnable hr
  · exact (h i p hi).running hr
  · exact (h i p hi).due d hd

end ProcessTable.Halted

namespace Kernel

variable {k k' : Kernel}

/-- In a halted kernel an event that is no process's doing does nothing to any process, and a
processor stops. -/
theorem halted_step {e : Event} (h : k.board.Sound) (halted : k.procs.Halted)
    (passive : e.Passive) : e.Allowed k ∧ Ends e.perform k fun a k' =>
      (∀ cpu, e = .schedule cpu → a = .decided .monitor) ∧
        k.procs.Each Process.LetGo k'.procs := by
  have still : ∀ {k' : Kernel}, Lapses k.clock.now k.board k'.board →
      k.procs.Each Process.LetGo k'.procs := by
    intro k' hl
    have hprocs : k'.procs = k.procs := congrArg Board.procs (halted.lapses hl)
    rw [hprocs]
    exact .refl _
  cases e with
  | schedule cpu =>
    have hcpu : cpu < cpuCount := passive
    obtain ⟨n, w, he, hl⟩ := Population.expireSlots_lapses k.clock.now (List.finRange slotCount)
      (w := k.toPopulation) h rfl
    have hw : w.procs = k.procs := congrArg Board.procs (halted.lapses hl)
    have rest : ∀ i p, w.procs.at? i = some p → p.canRunOn cpu = false :=
      fun i p hp => (halted i p (hw ▸ hp)).canRunOn
    refine ⟨passive, ends_map.2 ((schedule_rests hcpu he
      (ProcessTable.choose_of_canRunOn rest)).mono fun d k' ⟨hprocs, hd⟩ => ?_)⟩
    have hg : k.procs.Each Process.LetGo k'.procs := by
      rw [hprocs, ← hw]
      exact ProcessTable.release_of_canRunOn rest
    refine ⟨fun _ _ => ?_, hg⟩
    rw [hd, (halted.letGo hg).canProgress]
    rfl
  | timerTick =>
    exact ⟨trivial, ends_map.2 ((timerTick_ends h).mono fun _ _ hk => ⟨nofun, still hk.1⟩)⟩
  | sweep =>
    exact ⟨trivial, ends_map.2 ((sweepNow_ends h).mono fun _ _ hk => ⟨nofun, still hk.1⟩)⟩
  | advance | setClock => exact ⟨trivial, ends_map.2 (ends_modify.2 ⟨nofun, .refl _⟩)⟩
  | _ => exact passive.elim

/-- A processor stops only if nobody can go on. -/
theorem halted_of_monitor {cpu : Nat} (ends : k'.SendsEnd) (h : schedule cpu k = .ok .monitor k') :
    k'.procs.Halted := by
  obtain ⟨idle, hd⟩ := rests_of_schedule h nofun
  have stopped : ¬ k'.procs.canProgress cpu = true := fun can => by simp [can] at hd
  rw [ProcessTable.canProgress_eq_true] at stopped
  intro i p hp
  have hmem : p ∈ k'.procs.processes := ProcessTable.mem_processes.2 ⟨i, hp⟩
  have due : ∀ d, ¬ p.Due d := fun d hdue => stopped ⟨p, hmem, .inr (.inr ⟨d, hdue⟩)⟩
  constructor
  case runnable => exact fun hs => stopped ⟨p, hmem, .inl hs⟩
  case running =>
    intro run
    refine stopped ⟨p, hmem, .inr (.inl ⟨run, fun hcpu => ?_⟩)⟩
    have := idle i p hp
    simp [Process.canRunOn, run, hcpu] at this
  case sends =>
    intro hs
    obtain ⟨d, hdl⟩ := Option.isSome_iff_exists.1 (ends i p hp hs)
    exact due d (.inr ⟨hs, hdl⟩)
  case due => exact due

/-- Events that are no process's doing may happen in a halted kernel in any number: none of them
stops or does anything to a process, and every processor that asks for a process stops. -/
theorem halted_play (es : List Event) : ∀ {k : Kernel}, k.board.Sound → k.procs.Halted →
    (∀ e ∈ es, e.Passive) → ∃ ms k', play k es = some (ms, k') ∧
      ∀ m ∈ ms, (∀ cpu, m.event = .schedule cpu → m.answer = .decided .monitor) ∧
        k.procs.Each Process.LetGo m.after.procs := by
  induction es with
  | nil =>
    intro k _ _ _
    exact ⟨[], k, by rw [play], by simp⟩
  | cons e es ih =>
    intro k h halted passive
    obtain ⟨allowed, a, k₁, step, hmonitor, hg⟩ := halted_step h halted (passive e (by simp))
    obtain ⟨ms, k', hplay, hms⟩ := ih ((Event.effect h allowed step).sound h) (halted.letGo hg)
      fun e he => passive e (by simp [he])
    refine ⟨⟨k, e, a, k₁⟩ :: ms, k', by simp [play, allowed, step, hplay], fun m hm => ?_⟩
    rcases List.mem_cons.1 hm with rfl | hm
    · exact ⟨hmonitor, hg⟩
    · exact ⟨(hms m hm).1, hg.trans (hms m hm).2⟩

end Kernel

/-- The status and the registers that a process is seen with from outside, if it is there. -/
def Kernel.outside (k : Kernel) (pid : Pid) : Option (Status × TrapFrame) :=
  (k.procs.get? pid).map fun p => (p.status, p.frame)

/-- A process that loses its processor looks the same from outside. -/
theorem Kernel.outside_of_letGo {k k' : Kernel} (h : k.procs.Each Process.LetGo k'.procs)
    (pid : Pid) : k'.outside pid = k.outside pid := by
  have hi := h pid.slot
  unfold outside ProcessTable.get?
  revert hi
  generalize k.procs.at? pid.slot = o
  generalize k'.procs.at? pid.slot = o'
  rintro (hg | _)
  · simp [Option.filter, hg.pid]
    split <;> simp [hg.status, hg.frame]
  · rfl

namespace Run

variable {clock : Clock} {ms : List Moment} {k k' : Kernel} {cpu : Nat} {d : Decision}

/-- A processor that stops is right to: whatever processors then ask for a process, however often
the timer interrupts or a sweep is made, and however the clock moves, no process changes its status
or its registers, and every processor that asks stops. A processor that waits is right to as well:
nobody is runnable or runs on it, and somebody runs on another processor or is blocked in a call on
messages with a deadline. -/
theorem monitor_final_idle_justified (run : Run (.boot clock) ms k)
    (step : Kernel.schedule cpu k = .ok d k') :
    (d = .monitor → ∀ es : List Event, (∀ e ∈ es, e.Passive) →
      ∃ ms' k'', play k' es = some (ms', k'') ∧ ∀ m ∈ ms',
        (∀ c, m.event = .schedule c → m.answer = .decided .monitor) ∧
          ∀ pid, m.after.outside pid = k'.outside pid) ∧
      (d = .idle →
        (∀ p ∈ k'.procs.processes,
          p.status ≠ .runnable ∧ (p.status = .running → p.cpu ≠ some cpu)) ∧
          ∃ p ∈ k'.procs.processes,
            (p.status = .running ∧ ∃ c : Fin cpuCount, c.val ≠ cpu ∧ p.cpu = some c.val) ∨
              ∃ t, p.Due t) := by
  obtain ⟨hcpu, -⟩ := Kernel.schedule_ok step
  have allowed : (Event.schedule cpu).Allowed k := hcpu
  have step' : (Event.schedule cpu).perform k = .ok (.decided d) k' := by
    simp [Event.perform, Functor.map, EStateM.map, step]
  have run' := run.snoc allowed step'
  constructor
  · rintro rfl es passive
    have halted := Kernel.halted_of_monitor run'.sendsEnd step
    obtain ⟨ms', k'', hplay, hms⟩ := Kernel.halted_play es run'.sound halted passive
    exact ⟨ms', k'', hplay, fun m hm =>
      ⟨(hms m hm).1, Kernel.outside_of_letGo (hms m hm).2⟩⟩
  · rintro rfl
    obtain ⟨idle, hd⟩ := Kernel.rests_of_schedule step (by simp)
    have rests : ∀ p ∈ k'.procs.processes,
        p.status ≠ .runnable ∧ (p.status = .running → p.cpu ≠ some cpu) := by
      intro p hp
      obtain ⟨i, hi⟩ := ProcessTable.mem_processes.1 hp
      have hcan := idle i p hi
      unfold Process.canRunOn at hcan
      exact ⟨fun hs => by simp [hs] at hcan, fun hs hc => by simp [hs, hc] at hcan⟩
    have can : k'.procs.canProgress cpu = true := by
      by_contra hno
      simp [hno] at hd
    obtain ⟨p, hp, hcan⟩ := ProcessTable.canProgress_eq_true.1 can
    refine ⟨rests, p, hp, ?_⟩
    rcases hcan with hr | ⟨hr, hne⟩ | hdue
    · exact absurd hr (rests p hp).1
    · obtain ⟨i, hi⟩ := ProcessTable.mem_processes.1 hp
      obtain ⟨c, hc, -⟩ := run'.attached.current i p hi hr
      exact .inl ⟨hr, c, fun heq => hne (heq ▸ hc), hc⟩
    · exact .inr hdue

/-- A process is entered, is chosen by a processor and waits for a message, with no deadline. -/
def receiveForever : List Event :=
  [.spawn 0 ((TrapFrame.newUser 0x1000 0x2000).set .a7 1101), .schedule 0,
    .syscall (.ofSlot 1 0)]

/-- A process is entered, is chosen by a processor and waits for a message until a deadline. -/
def receiveForAWhile : List Event :=
  [.spawn 0 (((TrapFrame.newUser 0x1000 0x2000).set .a7 1103).set .a2 100), .schedule 0,
    .syscall (.ofSlot 1 0)]

/-- A played list of events whose last decision was computed leads to that decision. -/
theorem exists_schedule_of_play {es : List Event}
    (h : ((play (.boot default) es).any fun r => match Kernel.schedule 0 r.2 with
      | .ok d' _ => d' = d
      | .error _ _ => false) = true) :
    ∃ ms k k', play (.boot default) es = some (ms, k) ∧ Kernel.schedule 0 k = .ok d k' := by
  obtain ⟨⟨ms, k⟩, hplay, hd⟩ := (Option.any_eq_true _ _).1 h
  cases hs : Kernel.schedule 0 k with
  | error => simp [hs] at hd
  | ok d' k' =>
    obtain rfl : d' = d := by simpa [hs] using hd
    exact ⟨ms, k, k', hplay, hs⟩

/-- With nobody to send to the first process, the processor stops for good; the second one has a
deadline, for which the processor waits. -/
theorem monitor_final_idle_justified_of_receives :
    (∃ ms k k', play (.boot default) receiveForever = some (ms, k) ∧
      Kernel.schedule 0 k = .ok .monitor k' ∧
        ∃ ms' k'', play k' [.advance 1000, .timerTick, .schedule 3] = some (ms', k'') ∧
          ∀ m ∈ ms', ∀ pid, m.after.outside pid = k'.outside pid) ∧
      ∃ ms k k', play (.boot default) receiveForAWhile = some (ms, k) ∧
        Kernel.schedule 0 k = .ok .idle k' ∧
          ∃ p ∈ k'.procs.processes,
            (p.status = .running ∧ ∃ c : Fin cpuCount, c.val ≠ 0 ∧ p.cpu = some c.val) ∨
              ∃ t, p.Due t := by
  obtain ⟨ms, k, k', hplay, step⟩ : ∃ ms k k', play (.boot default) receiveForever = some (ms, k) ∧
      Kernel.schedule 0 k = .ok .monitor k' := exists_schedule_of_play (by decide +kernel)
  obtain ⟨ms₁, k₁, k₁', hplay₁, step₁⟩ : ∃ ms k k', play (.boot default) receiveForAWhile =
      some (ms, k) ∧ Kernel.schedule 0 k = .ok .idle k' :=
    exists_schedule_of_play (by decide +kernel)
  obtain ⟨ms', k'', hplay', hms⟩ := (monitor_final_idle_justified (.of_play hplay) step).1 rfl
    [.advance 1000, .timerTick, .schedule 3] (by simp [Event.Passive])
  exact ⟨⟨ms, k, k', hplay, step, ms', k'', hplay', fun m hm => (hms m hm).2⟩,
    ms₁, k₁, k₁', hplay₁, step₁,
    ((monitor_final_idle_justified (.of_play hplay₁) step₁).2 rfl).2⟩

end Run

end SyncKernel
