import SyncKernel.Proofs.Halting
import SyncKernel.Proofs.Processors

/-!
# Round robin

A processor looks for its next process in a circle of slots that begins behind the slot it picked
last. The process it finds is the nearest on the circle that it may run
(`ProcessTable.choose_eq_some_iff`), so it finds one exactly if there is one
(`Population.schedule_ends`). Whenever it passes over a runnable process, it picks a slot in front
of that process, and looks from behind that slot the next time: the process is nearer than before
(`Kernel.scanDistance_lt_of_schedule`). No other operation moves the point from which the processor
looks (`Operation.lastSlot_eq`). So a process that is runnable whenever the processor asks is passed
over fewer times than there are slots, whatever else happens (`Operation.round_robin`).
-/

namespace SyncKernel

variable {last : Option (Fin slotCount)} {i j : Fin slotCount} {n : Nat}

/-! ## The circle of slots -/

/-- The slot at which a processor begins to look for a process: the one behind the slot that it
picked last, or the first one. -/
def scanStart (last : Option (Fin slotCount)) : Nat :=
  match last with
  | none => 0
  | some i => (i.val + 1) % slotCount

/-- How many slots a processor passes before it comes to slot `i`. -/
def circleDistance (last : Option (Fin slotCount)) (i : Fin slotCount) : Nat :=
  (i.val + slotCount - scanStart last) % slotCount

/-- A processor begins at a slot. -/
theorem scanStart_lt (last : Option (Fin slotCount)) : scanStart last < slotCount := by
  cases last with
  | none => decide
  | some i => exact Nat.mod_lt _ (by decide)

theorem slotCount_eq : slotCount = 256 := rfl

/-- A processor comes to every slot within one round. -/
theorem circleDistance_lt (last : Option (Fin slotCount)) (i : Fin slotCount) :
    circleDistance last i < slotCount :=
  Nat.mod_lt _ (by decide)

/-- A round passes as many slots as there are. -/
theorem length_scanOrder (last : Option (Fin slotCount)) : (scanOrder last).length = slotCount := by
  simp [scanOrder]

/-- A round counts up from where it starts, and from the first slot again after the last. -/
theorem getElem_scanOrder (hn : n < (scanOrder last).length) :
    ((scanOrder last)[n] : Nat) = (scanStart last + n) % slotCount := by
  cases last <;> simp [scanOrder, scanStart]

/-- As many slots are passed before a slot as stand before it in the circle. -/
theorem circleDistance_getElem (hn : n < (scanOrder last).length) :
    circleDistance last (scanOrder last)[n] = n := by
  have hstart := scanStart_lt last
  rw [length_scanOrder] at hn
  rw [circleDistance, getElem_scanOrder]
  simp only [slotCount_eq] at hn hstart ⊢
  omega

/-- The distance of a slot is its place in the round. -/
theorem getElem_circleDistance (hn : circleDistance last i < (scanOrder last).length) :
    (scanOrder last)[circleDistance last i] = i := by
  have hstart := scanStart_lt last
  have hi := i.isLt
  refine Fin.ext ?_
  rw [getElem_scanOrder, circleDistance]
  simp only [slotCount_eq] at *
  omega

/-- Different slots are at different distances. -/
theorem circleDistance_injective (h : circleDistance last i = circleDistance last j) : i = j := by
  have hstart := scanStart_lt last
  have hi := i.isLt
  have hj := j.isLt
  refine Fin.ext ?_
  simp only [circleDistance, slotCount_eq] at *
  omega

/-- A slot that was passed over is nearer when the search begins behind the slot that was picked. -/
theorem circleDistance_lt_of_lt (h : circleDistance last i < circleDistance last j) :
    circleDistance (some i) j < circleDistance last j := by
  have hstart := scanStart_lt last
  have hi := i.isLt
  have hj := j.isLt
  have hnext : scanStart (some i) = (i.val + 1) % slotCount := rfl
  simp only [circleDistance, hnext, slotCount_eq] at *
  omega

/-! ## The nearest process -/

/-- A processor may run a process: it is runnable, or runs on that very processor. -/
def Process.MayRunOn (p : Process) (cpu : Nat) : Prop :=
  p.status = .runnable ∨ p.status = .running ∧ p.cpu = some cpu

/-- The test of a processor tells which processes it may run. -/
theorem Process.canRunOn_iff {p : Process} {cpu : Nat} :
    p.canRunOn cpu = true ↔ p.MayRunOn cpu := by
  unfold canRunOn MayRunOn
  cases p.status <;> simp

namespace ProcessTable

variable {t : ProcessTable} {cpu : Nat} {p q : Process}

/-- In slot `i` is a process that the processor may run, and no slot with such a process is nearer
on the circle. -/
structure IsNearest (t : ProcessTable) (cpu : Nat) (last : Option (Fin slotCount))
    (i : Fin slotCount) (p : Process) : Prop where
  holds : t.at? i = some p
  may : p.MayRunOn cpu
  first : ∀ j q, t.at? j = some q → q.MayRunOn cpu →
    circleDistance last i ≤ circleDistance last j

/-- The slot that is chosen is that of the nearest process. -/
theorem choose_eq_some_iff : t.choose cpu last = some i ↔ ∃ p, t.IsNearest cpu last i p := by
  rw [choose, List.find?_eq_some_iff_getElem]
  constructor
  · rintro ⟨hany, n, hn, rfl, hbefore⟩
    obtain ⟨p, hp, can⟩ := (Option.any_eq_true _ _).1 hany
    refine ⟨p, hp, Process.canRunOn_iff.1 can, fun j q hq may => ?_⟩
    rw [circleDistance_getElem]
    by_contra hlt
    have hpassed := hbefore (circleDistance last j) (Nat.lt_of_not_le hlt)
    rw [getElem_circleDistance] at hpassed
    simp [hq, Process.canRunOn_iff.2 may] at hpassed
  · rintro ⟨p, hp, may, first⟩
    have hlt : circleDistance last i < (scanOrder last).length := by
      rw [length_scanOrder]
      exact circleDistance_lt last i
    refine ⟨by simp [hp, Process.canRunOn_iff.2 may], circleDistance last i, hlt,
      getElem_circleDistance hlt, fun n hn => ?_⟩
    rw [Bool.not_eq_true', Bool.eq_false_iff]
    intro hany
    obtain ⟨q, hq, can⟩ := (Option.any_eq_true _ _).1 hany
    have hle := first _ q hq (Process.canRunOn_iff.1 can)
    rw [circleDistance_getElem] at hle
    omega

/-- No slot is chosen exactly if there is no process to run. -/
theorem choose_eq_none_iff :
    t.choose cpu last = none ↔ ∀ i p, t.at? i = some p → ¬ p.MayRunOn cpu := by
  constructor
  · intro h i p hp may
    have hcan := canRunOn_of_choose h hp
    rw [Process.canRunOn_iff.2 may] at hcan
    cases hcan
  · intro h
    refine choose_of_canRunOn fun i p hp => Bool.eq_false_iff.2 fun can => ?_
    exact h i p hp (Process.canRunOn_iff.1 can)

/-- Letting go of a process changes at most its status and the processor in its record. -/
theorem exists_of_release {current : Option Pid} {chosen : Option (Fin slotCount)}
    (hq : (t.release cpu current chosen).at? i = some q) :
    ∃ p, t.at? i = some p ∧ q.pid = p.pid ∧ q.runs = p.runs := by
  rcases release_cases (t := t) cpu current chosen with
    heq | ⟨p, -, hp, -, ⟨-, -, heq⟩ | ⟨-, heq⟩⟩ <;> rw [heq] at hq
  · exact ⟨q, hq, rfl, rfl⟩
  all_goals
    rcases at?_put_cases hq with ⟨hi, rfl⟩ | ⟨-, hq⟩
    · exact ⟨p, hi ▸ hp, rfl, rfl⟩
    · exact ⟨q, hq, rfl, rfl⟩

end ProcessTable

/-! ## A processor finds a process if there is one -/

namespace Population

variable {w w' : Population} {now : Millis} {state : Cpu} {cpu : Nat}

/-- Ending overdue receives never stops. -/
theorem expireSlots_ends (now : Millis) (slots : List (Fin slotCount)) :
    ∀ w : Population, ∃ n w', expireSlots now slots w = .ok (n, w') := by
  induction slots with
  | nil => exact fun w => ⟨_, _, rfl⟩
  | cons i rest ih =>
    intro w
    rw [expireSlots]
    cases w.procs.at? i with
    | none =>
      obtain ⟨n, w', hrest⟩ := ih w
      refine ⟨0 + n, w', ?_⟩
      simp only [bind, Except.bind, pure, Except.pure, hrest]
    | some p =>
      dsimp only
      split
      · next late =>
        obtain ⟨w₁, he⟩ : ∃ w₁, w.expireReceive p = .ok w₁ := by
          rw [expireReceive, Process.expireReceive_of_blocked late.1]
          exact ⟨_, rfl⟩
        obtain ⟨n, w', hrest⟩ := ih w₁
        refine ⟨1 + n, w', ?_⟩
        simp only [he, bind, Except.bind, pure, Except.pure, hrest]
      · obtain ⟨n, w', hrest⟩ := ih w
        refine ⟨0 + n, w', ?_⟩
        simp only [bind, Except.bind, pure, Except.pure, hrest]

/-- Ending overdue receives leaves the numbers of runs. -/
theorem expireSlots_runs (slots : List (Fin slotCount)) : ∀ {w : Population} {n : Nat},
    expireSlots now slots w = .ok (n, w') → ∀ p' ∈ w'.procs.processes,
      ∃ p ∈ w.procs.processes, p'.runs = p.runs := by
  induction slots with
  | nil =>
    intro w n h p' hp'
    cases h
    exact ⟨p', hp', rfl⟩
  | cons i rest ih =>
    intro w n h p' hp'
    obtain ⟨_, w₁, hrest, ⟨rfl, -⟩ | ⟨q, hq, -, -, he, -⟩⟩ := expireSlots_ok h
    · exact ih hrest p' hp'
    · obtain ⟨p, hp, hruns⟩ := ih hrest p' hp'
      obtain ⟨-, hprocs, -⟩ := expireReceive_ok he
      obtain ⟨j, hj⟩ := ProcessTable.mem_processes.1 hp
      rw [hprocs] at hj
      obtain ⟨-, rfl⟩ | ⟨-, hj⟩ := ProcessTable.at?_put_cases hj
      · exact ⟨q, ProcessTable.mem_processes.2 ⟨i, hq⟩, hruns⟩
      · exact ⟨p, ProcessTable.mem_processes.2 ⟨j, hj⟩, hruns⟩

/-- The process that is found is taken up, if its number of runs can be counted. -/
theorem schedule_takes {w₁ : Population} {i : Fin slotCount} {q : Process}
    (he : w.expireReceives now = .ok (n, w₁)) (hi : w₁.procs.choose cpu state.lastSlot = some i)
    (hq : (w₁.procs.release cpu state.current (some i)).at? i = some q)
    (hruns : q.runs.toNat + 1 < UInt64.size) :
    ∃ state' w', w.schedule state cpu now = .ok (.run q.pid, state', w') := by
  unfold schedule
  simp only [he, bind, Except.bind, hi, Option.bind_some, hq, Option.map_some, if_pos hruns]
  exact ⟨_, _, rfl⟩

/-- A processor that asks for a process gets the nearest one that it may run after overdue receives
were ended, and gets one exactly if there is one. -/
theorem schedule_ends (w : Population) (state : Cpu) (cpu : Nat) (now : Millis)
    (bound : ∀ p ∈ w.procs.processes, p.runs.toNat < UInt64.size - 1) :
    ∃ n w₁ d state' w', w.expireReceives now = .ok (n, w₁) ∧
      w.schedule state cpu now = .ok (d, state', w') ∧
      (∀ pid, d = .run pid ↔
        ∃ i p, w₁.procs.IsNearest cpu state.lastSlot i p ∧ p.pid = pid) ∧
      ((∃ pid, d = .run pid) ↔ ∃ i p, w₁.procs.at? i = some p ∧ p.MayRunOn cpu) := by
  obtain ⟨n, w₁, he⟩ := expireSlots_ends now (List.finRange slotCount) w
  have bound₁ : ∀ p ∈ w₁.procs.processes, p.runs.toNat < UInt64.size - 1 := by
    intro p' hp'
    obtain ⟨p, hp, hruns⟩ := expireSlots_runs _ he p' hp'
    exact hruns ▸ bound p hp
  replace he : w.expireReceives now = .ok (n, w₁) := he
  cases hi : w₁.procs.choose cpu state.lastSlot with
  | none =>
    obtain ⟨w', hs, -⟩ := schedule_rests he hi
    have hnone := ProcessTable.choose_eq_none_iff.1 hi
    have hrests : ∀ pid, (if (w₁.procs.release cpu state.current none).canProgress cpu then
        Decision.idle else .monitor) ≠ .run pid := by
      intro pid
      split <;> nofun
    refine ⟨n, w₁, _, _, w', he, hs, fun pid => ⟨fun hd => absurd hd (hrests pid), ?_⟩, ?_, ?_⟩
    · rintro ⟨i, p, near, -⟩
      exact absurd near.may (hnone i p near.holds)
    · rintro ⟨pid, hd⟩
      exact absurd hd (hrests pid)
    · rintro ⟨i, p, hp, may⟩
      exact absurd may (hnone i p hp)
  | some i =>
    obtain ⟨p, near⟩ := ProcessTable.choose_eq_some_iff.1 hi
    obtain ⟨q, hq, -⟩ := ProcessTable.canRunOn_release state.current near.holds
      (Process.canRunOn_iff.2 near.may)
    obtain ⟨p', hp', hpid, hruns⟩ := ProcessTable.exists_of_release hq
    cases near.holds.symm.trans hp'
    have hlt : q.runs.toNat + 1 < UInt64.size := by
      have hp := bound₁ p (ProcessTable.mem_processes.2 ⟨i, hp'⟩)
      rw [hruns]
      omega
    obtain ⟨state', w', hs⟩ := schedule_takes he hi hq hlt
    refine ⟨n, w₁, .run q.pid, state', w', he, hs, fun pid => ⟨fun hd => ?_, ?_⟩,
      fun _ => ⟨i, p, near.holds, near.may⟩, fun _ => ⟨q.pid, rfl⟩⟩
    · cases hd
      exact ⟨i, p, near, hpid.symm⟩
    · rintro ⟨j, r, near', rfl⟩
      cases hi.symm.trans (ProcessTable.choose_eq_some_iff.2 ⟨r, near'⟩)
      cases near.holds.symm.trans near'.holds
      rw [hpid]

end Population

/-! ## A process that is passed over comes nearer -/

namespace Kernel

variable {k k' : Kernel} {c : Fin cpuCount} {pid : Pid} {d : Decision}

/-- How many slots a processor passes before it comes to the slot of a process. -/
def scanDistance (k : Kernel) (c : Fin cpuCount) (pid : Pid) : Nat :=
  circleDistance (k.cpus.get c).lastSlot pid.slot

/-- A process that is runnable has a record. -/
theorem exists_of_runnable (h : k.status pid = .runnable) :
    ∃ p, k.procs.at? pid.slot = some p ∧ p.pid = pid ∧ p.status = .runnable := by
  unfold status at h
  split at h
  · next p hp =>
    obtain ⟨hat, hpid⟩ := ProcessTable.get?_eq_some.1 hp
    exact ⟨p, hat, hpid, h⟩
  · cases h

/-- A processor that takes up another process comes closer to a runnable one. -/
theorem scanDistance_lt_of_schedule (placed : k.procs.Placed) (hs : k.status pid = .runnable)
    (h : schedule c k = .ok d k') (hd : d ≠ .run pid) :
    k'.scanDistance c pid < k.scanDistance c pid := by
  obtain ⟨p, hp, rfl, run⟩ := exists_of_runnable hs
  obtain ⟨hcpu, n, w, state, he, hchoose, hcpus, -⟩ := schedule_ok h
  have hw := Population.expireSlots_spares _ placed he hp (by simp [run])
  have may : p.MayRunOn c := .inl run
  have hstate : k'.cpus.get c = state := by
    rw [hcpus]
    exact Vector.getElem_set_self hcpu
  generalize k'.procs = t at hchoose
  cases hchoose with
  | rest hi => exact absurd may (ProcessTable.choose_eq_none_iff.1 hi _ p hw)
  | @run i q hi hq can =>
    obtain ⟨r, near⟩ := ProcessTable.choose_eq_some_iff.1 hi
    have hne : i ≠ p.pid.slot := by
      rintro rfl
      obtain ⟨p', hp', hpid, -⟩ := ProcessTable.exists_of_release hq
      cases hw.symm.trans hp'
      exact hd (congrArg Decision.run hpid)
    have hle := near.first _ p hw may
    have hlt := Nat.lt_of_le_of_ne hle fun heq => hne (circleDistance_injective heq)
    rw [scanDistance, hstate]
    exact circleDistance_lt_of_lt hlt

end Kernel

/-! ## Sequences of operations -/

namespace Operation

variable {o : Operation} {k k' : Kernel} {c : Fin cpuCount} {pid : Pid}

/-- Whether a processor asks for its next process. -/
def asks (c : Fin cpuCount) : Operation → Bool
  | .event (.schedule cpu) => cpu == c.val
  | _ => false

/-- An operation that was carried out, with the kernels before and after it. -/
structure Turn where
  /-- The kernel before the operation. -/
  before : Kernel
  /-- The operation. -/
  operation : Operation
  /-- The kernel after the operation. -/
  after : Kernel

/-- What happens when operations are asked for one after the other: each is carried out, up to the
first that stops. -/
def turns : List Operation → Kernel → List Turn
  | [], _ => []
  | o :: os, k =>
    match o.perform k with
    | .ok _ k' => ⟨k, o, k'⟩ :: turns os k'
    | .error _ _ => []

/-- The turns in which a processor asked for its next process. -/
def calls (c : Fin cpuCount) (ts : List Turn) : List Turn :=
  ts.filter fun t => t.operation.asks c

/-- Whenever the processor asks for a process, this one is runnable, and it is not the one that the
processor gets. -/
def Overlooks (c : Fin cpuCount) (pid : Pid) (ts : List Turn) : Prop :=
  ∀ t ∈ calls c ts, t.before.status pid = .runnable ∧
    (Kernel.schedule c).run' t.before ≠ some (.run pid)

/-- Only when it asks for a process itself, the slot that a processor picked last changes. -/
theorem lastSlot_eq (h : k.Attached) (ho : o.asks c = false) (step : o.perform k = .ok () k') :
    (k'.cpus.get c).lastSlot = (k.cpus.get c).lastSlot := by
  have led : ∀ {α : Type} {x : Step α}, Step.Leads x →
      Step.Leaves x k fun _ k' => (k'.cpus.get c).lastSlot = (k.cpus.get c).lastSlot :=
    fun hx => (hx k).mono fun _ _ hk => hk.lastSlot c
  suffices hleaves : Step.Leaves o.perform k fun _ k' =>
      (k'.cpus.get c).lastSlot = (k.cpus.get c).lastSlot from hleaves () k' step
  cases o with
  | futexWait pid address expected =>
    exact Step.leaves_map.2 (led (Kernel.leads_futexWait pid address expected))
  | futexUnlink pid address => exact Step.leaves_map.2 (led (Kernel.leads_futexUnlink pid address))
  | event e =>
    refine Step.leaves_map.2 ?_
    cases e with
    | spawn space frame =>
      refine Step.leaves_map.2 ((Kernel.leaves_spawn k space frame).mono fun _ k' hk => ?_)
      obtain ⟨_, -, rfl⟩ | ⟨_, _, -, -, rfl⟩ := hk <;> rfl
    | syscall pid => exact Step.leaves_map.2 (led (Kernel.leads_syscall pid))
    | schedule cpu =>
      refine Step.leaves_map.2 fun d k' hs => ?_
      obtain ⟨hcpu, _, _, state, -, -, hcpus, -⟩ := Kernel.schedule_ok hs
      have hne : cpu ≠ c.val := by simpa [asks] using ho
      have hset : (k.cpus.set cpu state).get c = k.cpus.get c :=
        Vector.getElem_set_ne hcpu c.isLt hne
      rw [hcpus, hset]
    | timerTick =>
      refine Step.leaves_map.2 ?_
      rw [Kernel.timerTick, Step.leaves_bind, Step.leaves_get]
      split
      · exact Step.leaves_pure.2 rfl
      · rw [Step.leaves_bind, Step.leaves_set]
        exact (Kernel.leaves_sweepNow (k := { k with lastSweep := k.clock.now }) h.placed).mono
          fun _ _ hk => hk.lastSlot c
    | sweep =>
      exact Step.leaves_map.2 ((Kernel.leaves_sweepNow h.placed).mono fun _ _ hk => hk.lastSlot c)
    | trapReturn pid =>
      refine Step.leaves_map.2 ((Kernel.leaves_trapReturn k pid).mono fun _ k' hk => ?_)
      obtain ⟨a, k₁, hd, hk⟩ := hk
      rw [hk.lastSlot c]
      obtain ⟨_, -, rfl⟩ | ⟨_, _, _, _, -, -, -, -, -, -, hcpus, -⟩ :=
        Kernel.leaves_deliver k pid a k₁ hd
      · rfl
      · rw [hcpus]
    | sendSignal target n value =>
      exact Step.leaves_map.2 (led (Kernel.leads_sendSignal target n value))
    | futexWake address most => exact Step.leaves_map.2 (led (Kernel.leads_futexWake address most))
    | destroy pid => exact Step.leaves_map.2 (led (Kernel.leads_destroy pid))
    | reclaim pid =>
      refine Step.leaves_map.2 ((Kernel.leaves_reclaim k pid).mono fun _ k' hk => ?_)
      obtain ⟨_, -, rfl⟩ | ⟨_, -, -, rfl⟩ := hk <;> rfl
    | advance | setClock | registers | memory => exact Step.leaves_map.2 (Step.leaves_modify.2 rfl)

/-- What is left of a sequence of turns is the sequence from the kernel that was reached. -/
theorem turns_of_append {earlier rest : List Turn} : ∀ {os : List Operation} {k : Kernel},
    k.Attached → turns os k = earlier ++ rest →
      ∃ os' k', k'.Attached ∧ turns os' k' = rest := by
  induction earlier with
  | nil => exact fun h heq => ⟨_, _, h, heq⟩
  | cons t earlier ih =>
    intro os k h heq
    cases os with
    | nil => cases heq
    | cons o os =>
      rw [turns] at heq
      split at heq
      · next k' step => exact ih (attaches_perform o k h () k' step) (List.cons.inj heq).2
      · cases heq

/-- A call that overlooks a runnable process brings the processor nearer to it. -/
theorem nears (h : k.Attached) (ho : o.asks c = true) (step : o.perform k = .ok () k')
    (hs : k.status pid = .runnable) (hd : (Kernel.schedule c).run' k ≠ some (.run pid)) :
    k'.scanDistance c pid < k.scanDistance c pid := by
  obtain rfl : o = .event (.schedule c) := by
    unfold asks at ho
    split at ho
    · rw [beq_iff_eq.1 ho]
    · cases ho
  have hleaves : Step.Leaves (perform (.event (.schedule c))) k fun _ k' =>
      k'.scanDistance c pid < k.scanDistance c pid := by
    refine Step.leaves_map.2 (Step.leaves_map.2 fun d k' hstep => ?_)
    refine Kernel.scanDistance_lt_of_schedule h.placed hs hstep ?_
    rintro rfl
    exact hd (by simp [EStateM.run', EStateM.run, hstep])
  exact hleaves () k' step

/-- What is said of the calls that overlook a process, and of how far it is at first. -/
structure Approaches (c : Fin cpuCount) (pid : Pid) (distance : Nat) (ts : List Turn) : Prop where
  /-- At each call the processor comes nearer. -/
  nearer : ∀ t ∈ calls c ts, t.after.scanDistance c pid < t.before.scanDistance c pid
  /-- From call to call the process is nearer. -/
  descending : (calls c ts).Pairwise fun t u =>
    u.before.scanDistance c pid < t.before.scanDistance c pid
  within : ∀ t ∈ calls c ts, t.before.scanDistance c pid ≤ distance
  bounded : (calls c ts).length ≤ distance

/-- A processor that keeps overlooking a process comes closer to it each time. -/
theorem approaches {ts later : List Turn} : ∀ {os : List Operation} {k : Kernel}, k.Attached →
    turns os k = ts ++ later → Overlooks c pid ts →
      Approaches c pid (k.scanDistance c pid) ts := by
  induction ts with
  | nil => exact fun _ _ _ => ⟨nofun, .nil, nofun, Nat.zero_le _⟩
  | cons t ts ih =>
    intro os k h heq overlooks
    cases os with
    | nil => cases heq
    | cons o os =>
    rw [turns] at heq
    split at heq
    case h_2 => cases heq
    next k' step =>
    obtain ⟨rfl, htail⟩ := List.cons.inj heq
    have hk' := attaches_perform o k h () k' step
    cases ho : o.asks c with
    | false =>
      have hcalls : calls c (⟨k, o, k'⟩ :: ts) = calls c ts :=
        List.filter_cons_of_neg (by simp [ho])
      have hsame : k'.scanDistance c pid = k.scanDistance c pid := by
        rw [Kernel.scanDistance, Kernel.scanDistance, lastSlot_eq h ho step]
      have hrest := ih hk' htail (by rw [Overlooks, ← hcalls]; exact overlooks)
      rw [hsame] at hrest
      exact ⟨hcalls ▸ hrest.nearer, hcalls ▸ hrest.descending, hcalls ▸ hrest.within,
        hcalls ▸ hrest.bounded⟩
    | true =>
      have hcalls : calls c (⟨k, o, k'⟩ :: ts) = ⟨k, o, k'⟩ :: calls c ts :=
        List.filter_cons_of_pos ho
      rw [Overlooks, hcalls] at overlooks
      obtain ⟨⟨hs, hd⟩, overlooks⟩ := List.forall_mem_cons.1 overlooks
      have hlt := nears h ho step hs hd
      have hrest := ih hk' htail overlooks
      constructor
      case nearer => exact hcalls ▸ List.forall_mem_cons.2 ⟨hlt, hrest.nearer⟩
      case descending =>
        rw [hcalls]
        refine List.pairwise_cons.2 ⟨fun u hu => ?_, hrest.descending⟩
        exact Nat.lt_of_le_of_lt (hrest.within u hu) hlt
      case within =>
        rw [hcalls]
        refine List.forall_mem_cons.2 ⟨Nat.le_refl _, fun u hu => ?_⟩
        exact Nat.le_trans (hrest.within u hu) (Nat.le_of_lt hlt)
      case bounded =>
        have hbound := hrest.bounded
        rw [hcalls, List.length_cons]
        omega

/-- Round robin wastes no processor and starves no process. A processor that asks for a process gets
the nearest one that it may run, and gets one exactly if there is one. In a stretch of any sequence
of operations in which a process is runnable whenever the processor asks for one, and is not the one
that it gets, the process is nearer after each of these calls and from one of them to the next; so
there are fewer of them than slots. -/
theorem round_robin :
    (∀ (w : Population) (state : Cpu) (cpu : Nat) (now : Millis),
      (∀ p ∈ w.procs.processes, p.runs.toNat < UInt64.size - 1) →
      ∃ n w₁ d state' w', w.expireReceives now = .ok (n, w₁) ∧
        w.schedule state cpu now = .ok (d, state', w') ∧
        (∀ pid, d = .run pid ↔
          ∃ i p, w₁.procs.IsNearest cpu state.lastSlot i p ∧ p.pid = pid) ∧
        ((∃ pid, d = .run pid) ↔ ∃ i p, w₁.procs.at? i = some p ∧ p.MayRunOn cpu)) ∧
    ∀ (clock : Clock) (os : List Operation) (earlier ts later : List Turn),
      turns os (.boot clock) = earlier ++ ts ++ later →
      ∀ (c : Fin cpuCount) (pid : Pid), Overlooks c pid ts →
        (∀ t ∈ calls c ts, t.after.scanDistance c pid < t.before.scanDistance c pid) ∧
        (calls c ts).Pairwise (fun t u =>
          u.before.scanDistance c pid < t.before.scanDistance c pid) ∧
        (calls c ts).length ≤ slotCount - 1 := by
  refine ⟨Population.schedule_ends, ?_⟩
  intro clock os earlier ts later heq c pid overlooks
  rw [List.append_assoc] at heq
  obtain ⟨os', k, attached, hrest⟩ := turns_of_append (.boot clock) heq
  obtain ⟨nearer, descending, -, bounded⟩ := approaches attached hrest overlooks
  have hlt : k.scanDistance c pid < slotCount := circleDistance_lt _ _
  exact ⟨nearer, descending, by omega⟩

/-- Four processes are entered, and two processors take up three of them. -/
def lastInLine : List Operation :=
  [.event (.spawn 0 (.newUser 0x1000 0x2000)), .event (.spawn 1 (.newUser 0x1000 0x2000)),
    .event (.spawn 2 (.newUser 0x1000 0x2000)), .event (.spawn 3 (.newUser 0x1000 0x2000)),
    .event (.schedule 0), .event (.schedule 1), .event (.schedule 0)]

/-- A table with two processes, the first of which does not run. -/
def secondReady : Population where
  procs := (({} : ProcessTable).put
    { pid := .ofSlot 1 0, status := .dying, frame := .newUser 0x1000 0x2000, space := 0 }).put
    { pid := .ofSlot 1 1, frame := .newUser 0x1000 0x2000, space := 1 }

/-- The process that may run is the nearest one. The last of four processes is overlooked twice by
the first processor, which comes nearer to it. -/
theorem round_robin_of_lastInLine :
    (∃ n w₁ i p, secondReady.expireReceives 0 = .ok (n, w₁) ∧
      w₁.procs.IsNearest 0 none i p ∧ p.pid = .ofSlot 1 1) ∧
      ∃ earlier ts, turns lastInLine (.boot default) = earlier ++ ts ∧
        Overlooks 0 (.ofSlot 1 3) ts ∧ (calls 0 ts).length = 2 ∧
        (∀ t ∈ calls 0 ts,
          t.after.scanDistance 0 (.ofSlot 1 3) < t.before.scanDistance 0 (.ofSlot 1 3)) := by
  have hrun : (secondReady.schedule {} 0 0).toOption.map (·.1) = some (.run (.ofSlot 1 1)) := by
    decide +kernel
  have hplay : (calls 0 ((turns lastInLine (.boot default)).drop 4)).length = 2 ∧
      ∀ t ∈ calls 0 ((turns lastInLine (.boot default)).drop 4),
        t.before.status (.ofSlot 1 3) = .runnable ∧
          (Kernel.schedule (0 : Fin cpuCount)).run' t.before ≠ some (.run (.ofSlot 1 3)) := by
    decide +kernel
  obtain ⟨htwo, overlooks⟩ := hplay
  constructor
  · obtain ⟨n, w₁, d, state', w', he, hs, hd, -⟩ :=
      round_robin.1 secondReady {} 0 0 (by decide +kernel)
    rw [hs] at hrun
    obtain ⟨i, p, near, hpid⟩ := (hd (.ofSlot 1 1)).1 (Option.some.inj hrun)
    exact ⟨n, w₁, i, p, he, near, hpid⟩
  · have hsplit := (List.take_append_drop 4 (turns lastInLine (.boot default))).symm
    have happend := hsplit.trans (List.append_nil _).symm
    exact ⟨_, _, hsplit, overlooks, htwo,
      (round_robin.2 default lastInLine _ _ [] happend 0 (.ofSlot 1 3) overlooks).1⟩

end Operation

end SyncKernel
