import SyncKernel.Proofs.Leading
import SyncKernel.Proofs.Sweeping

/-!
# Choosing a process

What a processor does when it asks for its next process, from any kernel and whether or not it finds
one. Overdue receives are ended first, which leaves everybody alone who is not blocked
(`Population.expireSlots_spares`); then the processor lets go of its own process and takes up
another one, or none (`ProcessTable.Chooses`, `Kernel.schedule_ok`). The processes that run on other
processors keep their records (`ProcessTable.Chooses.spares`), as do those that are blocked
(`ProcessTable.Chooses.blocked`), and whoever runs afterwards was taken up, or ran before and was
not the processor's own (`ProcessTable.Chooses.running`).
-/

namespace SyncKernel

namespace ProcessTable

variable {t t' : ProcessTable} {p q : Process} {i : Fin slotCount} {cpu : Nat}
  {current : Option Pid} {chosen : Option (Fin slotCount)} {state state' : Cpu} {d : Decision}

/-! ## Letting go of a process -/

/-- Letting go of a process leaves all signals. -/
theorem release_each (t : ProcessTable) (cpu : Nat) (current : Option Pid)
    (chosen : Option (Fin slotCount)) :
    t.Each Process.SameSignals (t.release cpu current chosen) := by
  have refl := Each.refl (R := Process.SameSignals) t
  obtain heq | ⟨p, -, hp, -, ⟨run, -, heq⟩ | ⟨-, heq⟩⟩ := release_cases (t := t) cpu current chosen
  · rw [heq]
    exact refl
  · rw [heq]
    refine refl.put hp ⟨rfl, rfl, rfl, fun hd => ?_⟩
    cases run.symm.trans hd
  · rw [heq]
    exact refl.put hp ⟨rfl, rfl, rfl, id⟩

/-- A process that another processor runs is not let go. -/
theorem release_spares (hp : t.at? i = some p) (hcpu : p.cpu ≠ some cpu) :
    (t.release cpu current chosen).at? i = some p := by
  have other : ∀ q q' : Process, t.at? q.pid.slot = some q → q.cpu = some cpu →
      q'.pid = q.pid → (t.put q').at? i = some p := by
    intro q q' hq hqcpu hpid
    refine (at?_put_of_ne ?_).trans hp
    rw [hpid]
    rintro rfl
    cases hq.symm.trans hp
    exact hcpu hqcpu
  obtain heq | ⟨q, -, hq, hqcpu, ⟨-, -, heq⟩ | ⟨-, heq⟩⟩ :=
    release_cases (t := t) cpu current chosen
  · rw [heq, hp]
  · rw [heq]
    exact other q _ hq hqcpu rfl
  · rw [heq]
    exact other q _ hq hqcpu rfl

/-- Who runs after a processor let go of its process ran before with the same record. The process
that was let go runs on only if it was chosen again. -/
theorem release_running (placed : t.Placed)
    (hq : (t.release cpu current chosen).at? i = some q) (run : q.status = .running) :
    t.at? i = some q ∧ (current = some q.pid → q.cpu = some cpu → chosen = some i) := by
  have hq₀ : t.at? i = some q := by
    obtain heq | ⟨p, -, -, -, ⟨-, -, heq⟩ | ⟨hp, heq⟩⟩ := release_cases (t := t) cpu current chosen
    · exact heq ▸ hq
    · rw [heq] at hq
      obtain ⟨-, rfl⟩ | ⟨-, hq⟩ := at?_put_cases hq
      · cases run
      · exact hq
    · rw [heq] at hq
      obtain ⟨-, rfl⟩ | ⟨-, hq⟩ := at?_put_cases hq
      · exact absurd run hp
      · exact hq
  refine ⟨hq₀, ?_⟩
  rintro rfl hcpu
  by_contra hne
  have hslot : q.pid.slot = i := placed i q hq₀
  subst hslot
  have hput : t.release cpu (some q.pid) chosen =
      t.put { q with status := .runnable, cpu := none } := by
    rw [release, update_eq_put (get?_pid hq₀) (by simp [hcpu, run, hne])]
    simp [hcpu, run, hne]
  have hself : (t.put { q with status := .runnable, cpu := none }).at? q.pid.slot =
      some { q with status := .runnable, cpu := none } := at?_put_self
  rw [hput, hself] at hq
  have hstatus : q.status = .runnable := congrArg Process.status (Option.some.inj hq).symm
  cases hstatus.symm.trans run

/-- Who is blocked after a processor let go of its process was blocked before, with the same record
but for the processor in it. -/
theorem release_blocked (hq : (t.release cpu current chosen).at? i = some q)
    (hb : q.status = .blocked) : ∃ c, t.at? i = some { q with cpu := c } := by
  rcases release_cases (t := t) cpu current chosen with
    heq | ⟨p, -, hp, -, ⟨-, -, heq⟩ | ⟨-, heq⟩⟩ <;> rw [heq] at hq
  · exact ⟨q.cpu, hq⟩
  · rcases at?_put_cases hq with ⟨-, rfl⟩ | ⟨-, hq⟩
    · cases hb
    · exact ⟨q.cpu, hq⟩
  · rcases at?_put_cases hq with ⟨rfl, rfl⟩ | ⟨-, hq⟩
    · exact ⟨p.cpu, hp⟩
    · exact ⟨q.cpu, hq⟩

/-! ## Taking up a process -/

/-- What a processor decides, how its own state goes on, and what it makes of the table: it takes up
the process that it chose, or it finds none. -/
inductive Chooses (t : ProcessTable) (state : Cpu) (cpu : Nat) :
    Decision → Cpu → ProcessTable → Prop where
  | run {i : Fin slotCount} {p : Process} (hi : t.choose cpu state.lastSlot = some i)
      (hp : (t.release cpu state.current (some i)).at? i = some p) (can : p.canRunOn cpu = true) :
      Chooses t state cpu (.run p.pid) ⟨some p.pid, some i⟩
        ((t.release cpu state.current (some i)).setAt i
          { p with status := .running, cpu := some cpu, runs := p.runs + 1 })
  | rest {d : Decision} (hi : t.choose cpu state.lastSlot = none) :
      Chooses t state cpu d { state with current := none } (t.release cpu state.current none)

namespace Chooses

variable (placed : t.Placed) (h : t.Chooses state cpu d state' t')
include placed h

/-- The signals of all processes are left alone. -/
theorem each : t.Each Process.SameSignals t' := by
  cases h with
  | rest => exact release_each t cpu _ none
  | @run i p hi hp can =>
    have hrel := release_each t cpu state.current (some i)
    obtain ⟨p₀, hp₀, hs⟩ := hrel.exists_before hp
    have hslot : p.pid.slot = i := hrel.placed (fun h => h.pid) placed i p hp
    have hstatus : p.status ≠ .dying := by
      rintro hd
      simp [Process.canRunOn, hd] at can
    have htaken : p₀.SameSignals
        { p with status := .running, cpu := some cpu, runs := p.runs + 1 } :=
      ⟨hs.pid, hs.signal, hs.mode, fun hd => absurd (hs.dying hd) hstatus⟩
    subst hslot
    have hput : (t.release cpu state.current (some p.pid.slot)).setAt p.pid.slot
        { p with status := .running, cpu := some cpu, runs := p.runs + 1 } =
        (t.release cpu state.current (some p.pid.slot)).put
          { p with status := .running, cpu := some cpu, runs := p.runs + 1 } := rfl
    rw [hput]
    exact hrel.put hp₀ htaken

omit placed in
/-- A process that runs on another processor keeps its record. -/
theorem spares {i : Fin slotCount} (hp : t.at? i = some p) (run : p.status = .running)
    (hcpu : p.cpu ≠ some cpu) : t'.at? i = some p := by
  cases h with
  | rest => exact release_spares hp hcpu
  | @run j q hj hq can =>
    have hp' : (t.release cpu state.current (some j)).at? i = some p := release_spares hp hcpu
    rw [at?_setAt, if_neg ?_, hp']
    rintro rfl
    cases hq.symm.trans hp'
    simp [Process.canRunOn, run, hcpu] at can

omit placed in
/-- Who is blocked afterwards was blocked before, with the same record but for the processor in it.
-/
theorem blocked {i : Fin slotCount} (hq : t'.at? i = some q) (hb : q.status = .blocked) :
    ∃ c, t.at? i = some { q with cpu := c } := by
  cases h with
  | rest => exact release_blocked hq hb
  | run =>
    rw [at?_setAt] at hq
    split at hq
    · cases hq
      cases hb
    · exact release_blocked hq hb

/-- Who runs afterwards is the current process of the processor and was taken up by it, or ran
before and is not the one that it let go. -/
theorem running {i : Fin slotCount} (hq : t'.at? i = some q) (run : q.status = .running) :
    (q.cpu = some cpu ∧ state'.current = some q.pid) ∨
      (t.at? i = some q ∧ (q.cpu = some cpu → state.current ≠ some q.pid)) := by
  cases h with
  | rest =>
    obtain ⟨hq₀, hown⟩ := release_running placed hq run
    exact .inr ⟨hq₀, fun hcpu hcur => nomatch hown hcur hcpu⟩
  | @run j p hj hp can =>
    rw [at?_setAt] at hq
    split at hq
    · cases hq
      exact .inl ⟨rfl, rfl⟩
    · next hij =>
      obtain ⟨hq₀, hown⟩ := release_running placed hq run
      exact .inr ⟨hq₀, fun hcpu hcur => hij (Option.some.inj (hown hcur hcpu))⟩

end Chooses

end ProcessTable

/-! ## Asking for a process -/

namespace Population

variable {w w' : Population} {p : Process} {now : Millis} {i : Fin slotCount}

/-- Ending overdue receives leaves the processes alone that are not blocked. -/
theorem expireSlots_spares (slots : List (Fin slotCount)) : ∀ {w : Population} {n : Nat},
    w.procs.Placed → expireSlots now slots w = .ok (n, w') → w.procs.at? i = some p →
      p.status ≠ .blocked → w'.procs.at? i = some p := by
  induction slots with
  | nil =>
    intro w n _ h hp _
    cases h
    exact hp
  | cons j rest ih =>
    intro w n placed h hp hb
    obtain ⟨_, w₁, hrest, ⟨rfl, -⟩ | ⟨q, hq, -, -, he, -⟩⟩ := expireSlots_ok h
    · exact ih placed hrest hp hb
    · have hq' := placed.at?_slot hq
      have hw₁ := expireReceive_each hq' he
      obtain ⟨hqb, hprocs, -⟩ := expireReceive_ok he
      refine ih (hw₁.placed (fun h => h.pid) placed) hrest ?_ hb
      rw [hprocs]
      refine (ProcessTable.at?_put_of_ne ?_).trans hp
      rintro rfl
      cases hq'.symm.trans hp
      exact hb hqb

/-- What a processor does that asks for a process. -/
theorem schedule_ok {state state' : Cpu} {cpu : Nat} {d : Decision}
    (h : w.schedule state cpu now = .ok (d, state', w')) :
    ∃ n w₁, w.expireReceives now = .ok (n, w₁) ∧ w₁.procs.Chooses state cpu d state' w'.procs := by
  obtain ⟨⟨n, w₁⟩, he, h⟩ := Except.bind_eq_ok.1 h
  refine ⟨n, w₁, he, ?_⟩
  dsimp only at h
  cases hi : w₁.procs.choose cpu state.lastSlot with
  | none =>
    simp only [hi, Option.bind_none] at h
    split at h <;> cases h <;> exact .rest hi
  | some i =>
    obtain ⟨p, hp, can⟩ := ProcessTable.choose_eq_some hi
    obtain ⟨q, hq, can⟩ := ProcessTable.canRunOn_release state.current hp can
    simp only [hi, Option.bind_some, hq, Option.map_some] at h
    split at h
    · cases h
      exact .run hi hq can
    · cases h

end Population

namespace Kernel

variable {k k' : Kernel} {cpu : Nat} {d : Decision}

/-- A processor that asks for a process changes its own state and no other's. -/
theorem schedule_ok (h : schedule cpu k = .ok d k') :
    ∃ (hcpu : cpu < cpuCount) (n : Nat) (w : Population) (state : Cpu),
      k.expireReceives k.clock.now = .ok (n, w) ∧
      w.procs.Chooses k.cpus[cpu] cpu d state k'.procs ∧ k'.cpus = k.cpus.set cpu state ∧
      k'.clock = k.clock ∧ k'.lastSweep = k.lastSweep := by
  have hleaves : Step.Leaves (schedule cpu) k fun d k' =>
      ∃ (hcpu : cpu < cpuCount) (n : Nat) (w : Population) (state : Cpu),
        k.expireReceives k.clock.now = .ok (n, w) ∧
        w.procs.Chooses k.cpus[cpu] cpu d state k'.procs ∧ k'.cpus = k.cpus.set cpu state ∧
        k'.clock = k.clock ∧ k'.lastSweep = k.lastSweep := by
    rw [schedule, Step.leaves_bind, Step.leaves_get]
    split
    · next hcpu =>
      split
      · exact Step.leaves_throw.2 trivial
      · next d state w hs =>
        obtain ⟨n, w₁, he, hc⟩ := Population.schedule_ok hs
        rw [Step.leaves_bind, Step.leaves_set, Step.leaves_pure]
        exact ⟨hcpu, n, w₁, state, he, hc, rfl, rfl, rfl⟩
    · exact Step.leaves_throw.2 trivial
  exact hleaves d k' h

end Kernel

end SyncKernel
