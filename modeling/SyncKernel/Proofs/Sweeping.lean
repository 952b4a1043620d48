import SyncKernel.Proofs.Drift
import SyncKernel.Proofs.Messages
import SyncKernel.Proofs.Processes

/-!
# Sweeps and scheduling

What the periodic sweep and the scheduler do to the board. Looking at a slot in a sweep ends the
call on messages there, if it is overdue, and never passes a message: on a board in order the target
of a waiting send does not receive (`Population.sweepSlot_lapses`). So a sweep makes lapses only
(`sweepNow_ends`). The scheduler ends overdue receives, lets go of the process that ran, and takes
up one that can run (`schedule_cases`); it stops only at the end of a counter of runs.
-/

namespace SyncKernel

open Board Step

namespace ProcessTable

variable {t : ProcessTable} {p : Process} {i : Fin slotCount} {cpu : Nat}

/-- The process that is chosen can run. -/
theorem choose_eq_some {last : Option (Fin slotCount)} (h : t.choose cpu last = some i) :
    ∃ p, t.at? i = some p ∧ p.canRunOn cpu = true := by
  have hany := List.find?_some h
  simpa [Option.any_eq_true] using hany

/-- The process that is chosen can still run after the processor let go of its own. -/
theorem canRunOn_release (current : Option Pid) (hp : t.at? i = some p)
    (can : p.canRunOn cpu = true) :
    ∃ q, (t.release cpu current (some i)).at? i = some q ∧ q.canRunOn cpu = true := by
  rcases release_cases (t := t) cpu current (some i) with
    heq | ⟨q, -, hq, -, ⟨-, hne, heq⟩ | ⟨hrun, heq⟩⟩
  · exact ⟨p, by rw [heq, hp], can⟩
  · have hi : q.pid.slot ≠ i := fun hi => hne (congrArg some hi.symm)
    refine ⟨p, ?_, can⟩
    rw [heq]
    refine (at?_put_of_ne ?_).trans hp
    exact hi
  · by_cases hi : q.pid.slot = i
    · subst hi
      cases hq.symm.trans hp
      have hs : p.status = .runnable := by
        revert can hrun
        unfold Process.canRunOn
        cases p.status <;> simp
      refine ⟨{ p with cpu := none }, ?_, by simp [Process.canRunOn, hs]⟩
      rw [heq]
      exact at?_put_self
    · refine ⟨p, ?_, can⟩
      rw [heq]
      refine (at?_put_of_ne ?_).trans hp
      exact hi

end ProcessTable

namespace Population

variable {w : Population} {b : Board} (now : Millis)

/-- Ending a receive at its deadline. -/
theorem expireReceive_lapse {p : Process} (hw : b.procs = w.procs)
    (hp : b.procs.at? p.pid.slot = some p) (hr : p.Receives)
    (late : deadlineElapsed p.receive.deadline now = true) :
    ∃ w', w.expireReceive p = .ok w' ∧ Lapse now b { b with procs := w'.procs } := by
  refine ⟨(w.put p.expired).note (.receiveTimedOut p.pid), ?_, ?_⟩
  · rw [expireReceive, Process.expireReceive_of_blocked hr.1]
    rfl
  · have hlapse : Lapse now b (b.put p.expired) := .ended hp (.expired hr late)
    rw [Board.put, hw] at hlapse
    exact hlapse

/-- What a sweep does to a waiting send: it is ended if its target is gone or its deadline has
passed, and its message does not pass. -/
theorem sweepSend_cases {p : Process} (h : b.Sound) (hw : b.procs = w.procs)
    (hp : b.procs.at? p.pid.slot = some p) (hb : p.status = .blocked)
    (hs : p.send.sending = true) :
    ∃ target, p.send.target = some target ∧
      ((w.attempt p.pid target p.send.message = .ok (.targetGone, w) ∧
          Lapse now b (b.put (p.unsent Errno.noSuchProcess.toWord))) ∨
        (w.attempt p.pid target p.send.message = .ok (.notReady, w) ∧
          (deadlineElapsed p.send.deadline now = true →
            Lapse now b (b.put (p.unsent Errno.timedOut.toWord))))) := by
  obtain ⟨target, ht⟩ := (h.settled hp).target hs
  have hsnd : p.SendsTo target := ⟨hb, hs, ht⟩
  have hnr : ¬ p.Receives := (h.settled hp).not_receives hsnd.sends
  refine ⟨target, ht, ?_⟩
  obtain ⟨hgone, ha⟩ | ⟨r, hr, ⟨-, ha⟩ | ⟨_, _, _, -, hrcv, -, -⟩⟩ :=
    attempt_cases (hw ▸ h.table.bounded) target p.send.message (hw ▸ hp) fun _ => hnr
  · refine .inl ⟨ha, .ended hp (.forsaken hsnd ?_)⟩
    rintro ⟨r, hr⟩
    exact hgone r (hw ▸ hr)
  · exact .inr ⟨ha, fun late => .ended hp (.gaveUp hsnd ⟨r, hw ▸ hr⟩ late)⟩
  · -- the target would have to wait for a message at the same time
    obtain ⟨hat, rfl⟩ := ProcessTable.get?_eq_some.1 (ProcessTable.lookup_eq_ok.1 hr).1
    exact absurd hrcv (h.table.met _ _ p r hp (hw ▸ hat) hsnd)

/-- Looking at a slot in a sweep ends the call there or changes nothing. -/
theorem sweepSlot_lapses (h : b.Sound) (hw : b.procs = w.procs) (i : Fin slotCount) :
    ∃ ended w', w.sweepSlot now i = .ok (ended, w') ∧
      Lapses now b { b with procs := w'.procs } := by
  have hrefl : Lapses now b { b with procs := w.procs } := by
    rw [← hw]
  have hput : ∀ p, b.put p = { b with procs := w.procs.put p } := fun p => by rw [Board.put, hw]
  unfold sweepSlot
  split
  · exact ⟨_, _, rfl, hrefl⟩
  next p hp =>
  have hat : b.procs.at? p.pid.slot = some p := h.table.at?_slot (hw ▸ hp)
  split
  · exact ⟨_, _, rfl, hrefl⟩
  next hb =>
  have hb : p.status = .blocked := not_not.1 hb
  split
  · next hr =>
    split
    · next late =>
      obtain ⟨w', he, hl⟩ := expireReceive_lapse now hw hat ⟨hb, hr⟩ late
      rw [he]
      exact ⟨_, _, rfl, .single hl⟩
    · exact ⟨_, _, rfl, hrefl⟩
  split
  · exact ⟨_, _, rfl, hrefl⟩
  next hs =>
  have hs : p.send.sending = true := by simpa using hs
  obtain ⟨target, ht, ⟨ha, hl⟩ | ⟨ha, hl⟩⟩ := sweepSend_cases now h hw hat hb hs
  · rw [hput] at hl
    simp only [ht, ha, bind, Except.bind, pure, Except.pure, hp, Process.finishSend_of_blocked hb]
    exact ⟨_, _, rfl, .single hl⟩
  · simp only [ht, ha, bind, Except.bind, pure, Except.pure, hp]
    split
    · exact ⟨_, _, rfl, hrefl⟩
    · next word hword =>
      split at hword
      · next late =>
        cases hword
        have hl := hl late
        rw [hput] at hl
        rw [Process.finishSend_of_blocked hb]
        exact ⟨_, _, rfl, .single hl⟩
      · cases hword

/-- Sweeping a list of slots makes lapses only. -/
theorem sweepSlots_lapses (slots : List (Fin slotCount)) : ∀ {w : Population} {b : Board},
    b.Sound → b.procs = w.procs → ∃ n w', sweepSlots now slots w = .ok (n, w') ∧
      Lapses now b { b with procs := w'.procs } := by
  induction slots with
  | nil =>
    intro w b _ hw
    refine ⟨0, w, rfl, ?_⟩
    rw [← hw]
  | cons i rest ih =>
    intro w b h hw
    obtain ⟨ended, w₁, hslot, hl⟩ := sweepSlot_lapses now h hw i
    have h₁ : Board.Sound { b with procs := w₁.procs } := hl.moves.sound h
    obtain ⟨n, w', hrest, hl'⟩ := ih h₁ rfl
    refine ⟨ended.toNat + n, w', ?_, hl.trans hl'⟩
    rw [sweepSlots]
    simp only [bind, Except.bind, hslot, hrest]
    rfl

/-- Ending the overdue receives of a list of slots makes lapses only. -/
theorem expireSlots_lapses (slots : List (Fin slotCount)) : ∀ {w : Population} {b : Board},
    b.Sound → b.procs = w.procs → ∃ n w', expireSlots now slots w = .ok (n, w') ∧
      Lapses now b { b with procs := w'.procs } := by
  induction slots with
  | nil =>
    intro w b _ hw
    refine ⟨0, w, rfl, ?_⟩
    rw [← hw]
  | cons i rest ih =>
    intro w b h hw
    rw [expireSlots]
    cases hp : w.procs.at? i with
    | none =>
      obtain ⟨n, w', hrest, hl⟩ := ih h hw
      refine ⟨0 + n, w', ?_, hl⟩
      simp only [bind, Except.bind, pure, Except.pure, hrest]
    | some p =>
      dsimp only
      split
      · next hc =>
        obtain ⟨hb, hr, late⟩ := hc
        obtain ⟨w₁, he, hl⟩ :=
          expireReceive_lapse now hw (h.table.at?_slot (hw ▸ hp)) ⟨hb, hr⟩ late
        obtain ⟨n, w', hrest, hl'⟩ := ih (hl.sound h) rfl
        refine ⟨1 + n, w', ?_, .head hl hl'⟩
        simp only [he, bind, Except.bind, pure, Except.pure, hrest]
      · obtain ⟨n, w', hrest, hl⟩ := ih h hw
        refine ⟨0 + n, w', ?_, hl⟩
        simp only [bind, Except.bind, pure, Except.pure, hrest]

/-- Picking the next process for a processor ends overdue receives, lets go of the processor's own
process and takes up one that can run, if there is any, unless its counter of runs is at its end. -/
theorem schedule_cases (h : b.Sound) (hw : b.procs = w.procs) (cpu : Fin cpuCount) :
    (w.schedule (b.cpus.get cpu) cpu now = .error .runCountOverflow ∧
        ∃ i p, b.procs.at? i = some p ∧ UInt64.size ≤ p.runs.toNat + 1) ∨
      ∃ d state w', w.schedule (b.cpus.get cpu) cpu now = .ok (d, state, w') ∧
        ∃ b₁ chosen, Lapses now b b₁ ∧
          (({ b with procs := w'.procs } : Board).setCpu cpu state = b₁.released cpu chosen ∨
            ∃ pid, d = .run pid ∧ Dispatch pid (b₁.released cpu chosen)
              (({ b with procs := w'.procs } : Board).setCpu cpu state)) := by
  obtain ⟨_, w₁, he, hl⟩ := expireSlots_lapses now (List.finRange slotCount) h hw
  generalize hchosen : w₁.procs.choose cpu (b.cpus.get cpu).lastSlot = chosen
  have hmoves : Moves now b (({ b with procs := w₁.procs } : Board).released cpu chosen) :=
    hl.moves.tail (.release cpu chosen)
  unfold schedule expireReceives
  simp only [he, bind, Except.bind, hchosen]
  cases chosen with
  | none =>
    simp only [Option.bind_none]
    right
    split <;> exact ⟨_, _, _, rfl, _, none, hl, .inl rfl⟩
  | some i =>
    obtain ⟨p, hp, can⟩ := ProcessTable.choose_eq_some hchosen
    obtain ⟨q, hq, can⟩ := ProcessTable.canRunOn_release (b.cpus.get cpu).current hp can
    have hslot : q.pid.slot = i := (hmoves.sound h).table.placed i q hq
    simp only [Option.bind_some, hq, Option.map_some]
    by_cases hlt : q.runs.toNat + 1 < UInt64.size
    · rw [if_pos hlt]
      refine .inr ⟨_, _, _, rfl, _, some i, hl, .inr ⟨q.pid, rfl, ?_⟩⟩
      subst hslot
      have hrun : Dispatch q.pid _ _ :=
        .run (b := ({ b with procs := w₁.procs } : Board).released cpu _) cpu hq rfl can
      simp only [released, setCpu, Board.put, Vector.set_set] at hrun
      exact hrun
    · obtain ⟨p, hp, hd⟩ := (hmoves.drifts h).exists_before hq
      rw [if_neg hlt]
      exact .inl ⟨rfl, i, p, hp, hd.runs ▸ Nat.le_of_not_lt hlt⟩

end Population

namespace Kernel

variable {k : Kernel}

/-- A sweep ends overdue calls and does nothing else to the board. -/
theorem sweepNow_ends (h : k.board.Sound) :
    Ends sweepNow k fun _ k' =>
      Lapses k.clock.now k.board k'.board ∧ k'.clock = k.clock := by
  rw [sweepNow, ends_bind, ends_get, ends_ofPopulation]
  obtain ⟨n, w', hs, hl⟩ := Population.sweepSlots_lapses k.clock.now (List.finRange slotCount)
    (w := k.toPopulation) h rfl
  exact ⟨n, w', hs, hl, rfl⟩

/-- The timer sweeps or does nothing. -/
theorem timerTick_ends (h : k.board.Sound) :
    Ends timerTick k fun _ k' =>
      Lapses k.clock.now k.board k'.board ∧ k'.clock = k.clock := by
  rw [timerTick, ends_bind, ends_get]
  split
  · exact ends_pure.2 ⟨.refl, rfl⟩
  · rw [ends_bind, ends_set]
    exact sweepNow_ends (k := { k with lastSweep := k.clock.now }) h

/-! ## Scheduling -/

/-- A processor that asks for a process takes up one or none, after overdue receives were ended and
its own process was let go. It stops only at the end of a counter of runs. -/
theorem schedule_cases (h : k.board.Sound) {cpu : Nat} (hcpu : cpu < cpuCount) :
    (schedule cpu k = .error .runCountOverflow k ∧
        ∃ i p, k.board.procs.at? i = some p ∧ UInt64.size ≤ p.runs.toNat + 1) ∨
      Ends (schedule cpu) k fun d k' =>
        ∃ b chosen, Lapses k.clock.now k.board b ∧
          (k'.board = b.released ⟨cpu, hcpu⟩ chosen ∨
            ∃ pid, d = .run pid ∧ Dispatch pid (b.released ⟨cpu, hcpu⟩ chosen) k'.board) := by
  obtain ⟨hs, hover⟩ | ⟨d, state, w', hs, hb⟩ := Population.schedule_cases k.clock.now
    (w := k.toPopulation) h rfl ⟨cpu, hcpu⟩
  · refine .inl ⟨?_, hover⟩
    have hs : k.toPopulation.schedule k.cpus[cpu] cpu k.clock.now = .error .runCountOverflow := hs
    simp [schedule, bind, EStateM.bind, get, getThe, MonadStateOf.get, EStateM.get, hcpu, hs,
      throw, throwThe, MonadExceptOf.throw, EStateM.throw]
  · right
    have hs : k.toPopulation.schedule k.cpus[cpu] cpu k.clock.now = .ok (d, state, w') := hs
    rw [schedule, ends_bind, ends_get, dif_pos hcpu, hs]
    dsimp only
    rw [ends_bind, ends_set, ends_pure]
    exact hb

end Kernel

end SyncKernel
