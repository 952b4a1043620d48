import SyncKernel.Proofs.Changes
import SyncKernel.Proofs.Waking

/-!
# Messages and futexes apart from signals

The operations on messages and futexes leave the signals of all processes alone, and nobody begins
to run in them (`Process.Aside`), whatever state the processes are in that they meet. For the sweeps
this needs records to be in their slots. What looking at a slot in a sweep finds and does is said in
full (`Population.sweepSlot_ok`, `Population.expireSlots_ok`).
-/

namespace SyncKernel

namespace Population

variable {w w' : Population} {p : Process} {pid target sender : Pid} {msg : Message} {now : Millis}
  {i : Fin slotCount}

/-! ## Messages -/

/-- An attempt to pass a message changes nothing, or hands it to the target. -/
theorem attempt_ok {o : Attempt} (h : w.attempt sender target msg = .ok (o, w')) :
    (o ≠ .delivered ∧ w' = w) ∨
      o = .delivered ∧ sender.slot ≠ target.slot ∧ ∃ r size perm, w.procs.get? target = some r ∧
        r.Receives ∧ w'.procs = w.procs.put (r.handed sender msg.value size perm) := by
  unfold attempt at h
  split at h
  · cases h
    exact .inl ⟨nofun, rfl⟩
  split at h
  · cases h
    exact .inl ⟨nofun, rfl⟩
  split at h
  · cases h
    exact .inl ⟨nofun, rfl⟩
  next s r hpair =>
  obtain ⟨hslot, hs, hr⟩ := ProcessTable.pair?_eq_some.1 hpair
  obtain ⟨-, rfl⟩ := ProcessTable.get?_eq_some.1 hs
  split at h
  · next hrcv =>
    have wait : r.Receives := by simpa [Process.Receives, and_comm] using hrcv
    obtain ⟨w₁, hc, h⟩ := Except.bind_eq_ok.1 h
    cases h
    obtain ⟨size, perm, hprocs⟩ := complete_eq_ok wait hc
    exact .inr ⟨rfl, hslot, r, size, perm, hr, wait, hprocs⟩
  · cases h
    exact .inl ⟨nofun, rfl⟩

/-- An attempt to pass a message leaves all signals, and nobody begins to run. -/
theorem attempt_each {o : Attempt} (h : w.attempt sender target msg = .ok (o, w')) :
    w.procs.Each Process.Aside w'.procs := by
  obtain ⟨-, rfl⟩ | ⟨-, -, r, size, perm, hr, wait, hprocs⟩ := attempt_ok h
  · exact .refl _
  · obtain ⟨hat, rfl⟩ := ProcessTable.get?_eq_some.1 hr
    rw [hprocs]
    exact (ProcessTable.Each.refl (R := Process.Aside) _).put hat
      (.handed wait sender msg.value size perm)

/-- A send that does not wait leaves all signals, and nobody begins to run. -/
theorem trySend_each {a : Except Errno Unit} (h : w.trySend pid target msg = .ok (a, w')) :
    w.procs.Each Process.Aside w'.procs := by
  have refl := ProcessTable.Each.refl (R := Process.Aside) w.procs
  unfold trySend at h
  split at h
  · cases h
    exact refl
  split at h
  · cases h
    exact refl
  obtain ⟨⟨o, w₁⟩, ha, h⟩ := Except.bind_eq_ok.1 h
  have hw₁ := attempt_each ha
  cases o <;> cases h <;> exact hw₁

/-- A send that may wait leaves all signals, and nobody begins to run. -/
theorem sendTimeout_each {timeout : Millis} {a : Except Errno CallOutcome}
    (h : w.sendTimeout pid target msg timeout now = .ok (a, w')) :
    w.procs.Each Process.Aside w'.procs := by
  have refl := ProcessTable.Each.refl (R := Process.Aside) w.procs
  unfold sendTimeout at h
  split at h
  · cases h
    exact refl
  split at h
  · cases h
    exact refl
  split at h
  · cases h
    exact refl
  obtain ⟨⟨o, w₁⟩, ha, hr⟩ := Except.bind_eq_ok.1 h
  have hw₁ := attempt_each ha
  cases o with
  | delivered | targetGone =>
    cases hr
    exact hw₁
  | notReady =>
    dsimp only at hr
    split at hr
    · cases hr
      exact hw₁
    · next q hq =>
      obtain ⟨hget, live⟩ := ProcessTable.lookup_eq_ok.1 hq
      obtain ⟨hat, rfl⟩ := ProcessTable.get?_eq_some.1 hget
      obtain ⟨q₀, hq₀, hqa⟩ := hw₁.exists_before hat
      cases hr
      exact hw₁.put hq₀ (hqa.trans (.of_status live (.inl rfl) rfl rfl rfl rfl))

/-- The end of a receive, which gives the caller the status back that it had before. -/
theorem resume_each {w₃ : Population} {value : UInt64} {a : Except Errno CallOutcome}
    (hat : w.procs.at? p.pid.slot = some p) (hw₃ : w.procs.Each Process.Aside w₃.procs)
    (h : (match w₃.procs.lookup p.pid with
      | .error e => pure (.error e, w₃)
      | .ok q => pure (.ok (.done value), w₃.put { q with status := p.status }) :
      Except Fault (Except Errno CallOutcome × Population)) = .ok (a, w')) :
    w.procs.Each Process.Aside w'.procs := by
  split at h
  · cases h
    exact hw₃
  · next q hq =>
    obtain ⟨hatq, hpid⟩ := ProcessTable.get?_eq_some.1 (ProcessTable.lookup_eq_ok.1 hq).1
    obtain ⟨p₀, hp₀, haq⟩ := hw₃.exists_before hatq
    cases hat.symm.trans hp₀
    cases h
    rw [← hpid] at hat
    have back : p.Aside { q with status := p.status } :=
      ⟨⟨hpid, haq.signal, haq.mode, id⟩, haq.cpu, id⟩
    exact hw₃.put hat back

/-- A receive leaves signals alone. Its caller is blocked and woken again on the way if a message
is there, and has the status at the end that it began with. -/
theorem receive_each {buffer capacity : UInt64} {timeout : Option Millis}
    {a : Except Errno CallOutcome}
    (h : w.receive pid buffer capacity timeout now = .ok (a, w')) :
    w.procs.Each Process.Aside w'.procs := by
  have refl := ProcessTable.Each.refl (R := Process.Aside) w.procs
  unfold receive at h
  split at h
  · cases h
    exact refl
  split at h
  · cases h
    exact refl
  next p hp =>
  obtain ⟨hget, live⟩ := ProcessTable.lookup_eq_ok.1 hp
  obtain ⟨hat, rfl⟩ := ProcessTable.get?_eq_some.1 hget
  dsimp only at h
  split at h
  · cases h
    exact refl
  generalize hp₁ : ({ p with
    receive := { receiving := true, deadline := timeout.map (deadlineAfter now), buffer, capacity }
    status := .blocked } : Process) = p₁ at h
  have haside : p.Aside p₁ := by
    subst hp₁
    exact .of_status live (.inl rfl) rfl rfl rfl rfl
  have hw₁ : w.procs.Each Process.Aside (w.put p₁).procs := refl.put (haside.pid ▸ hat) haside
  generalize w.put p₁ = w₁ at h hw₁
  split at h
  · cases h
    exact hw₁
  obtain ⟨⟨o, w₂⟩, ha, h⟩ := Except.bind_eq_ok.1 h
  have hw₂ := hw₁.trans (attempt_each ha)
  dsimp only at h
  split at h
  · split at h
    · next s hs =>
      obtain ⟨hats, hpid⟩ := ProcessTable.get?_eq_some.1 hs
      rw [← hpid] at hats
      obtain ⟨w₃, hf, h⟩ := Except.bind_eq_ok.1 h
      obtain ⟨s', hfin, hr⟩ : ∃ s', s.finishSend 0 = .ok s' ∧ w₂.put s' = w₃ := by
        cases hfin : s.finishSend 0 with
        | error fault => simp [hfin, Except.map] at hf
        | ok s' => exact ⟨s', rfl, by simpa [hfin, Except.map] using hf⟩
      have hb := Process.blocked_of_finishSend hfin
      rw [Process.finishSend_of_blocked hb] at hfin
      cases hfin
      cases hr
      obtain ⟨s₀, hs₀, has⟩ := hw₂.exists_before hats
      have hw₃ : w.procs.Each Process.Aside (w₂.put (s.unsent 0)).procs :=
        hw₂.put hs₀ (has.trans (.unsent hb 0))
      exact resume_each hat hw₃ h
    · exact resume_each hat hw₂ h
  · cases h
    exact hw₂

/-- Ending a receive at its deadline makes its process runnable and leaves the memory. -/
theorem expireReceive_ok (h : w.expireReceive p = .ok w') :
    p.status = .blocked ∧ w'.procs = w.procs.put p.expired ∧ w'.memory = w.memory := by
  obtain ⟨q, he, h⟩ := Except.bind_eq_ok.1 h
  have hb := Process.blocked_of_expireReceive he
  rw [Process.expireReceive_of_blocked hb] at he
  cases he
  cases h
  exact ⟨hb, rfl, rfl⟩

/-- Ending a receive at its deadline leaves all signals, and nobody begins to run. -/
theorem expireReceive_each (hp : w.procs.at? p.pid.slot = some p)
    (h : w.expireReceive p = .ok w') : w.procs.Each Process.Aside w'.procs := by
  obtain ⟨hb, hprocs, -⟩ := expireReceive_ok h
  rw [hprocs]
  exact (ProcessTable.Each.refl (R := Process.Aside) _).put hp (.expired hb)

/-- What looking at a slot in a sweep does: it finds no call there that is over, and changes
nothing; or it ends a receive; or it ends a waiting send, whose message it tried once more. -/
theorem sweepSlot_ok {ended : Bool} (h : w.sweepSlot now i = .ok (ended, w')) :
    (w' = w ∧ ∀ p, w.procs.at? i = some p →
        (p.Receives → deadlineElapsed p.receive.deadline now = false) ∧
          (p.Sends → p.Receives ∨ deadlineElapsed p.send.deadline now = false)) ∨
      (∃ p, w.procs.at? i = some p ∧ w.expireReceive p = .ok w') ∨
      ∃ (w₁ : Population) (q : Process) (word : UInt64),
        w.procs.Each Process.Aside w₁.procs ∧ w₁.procs.at? i = some q ∧
          q.status = .blocked ∧ w'.procs = w₁.procs.put (q.unsent word) := by
  unfold sweepSlot at h
  split at h
  · next hnone =>
    cases h
    refine .inl ⟨rfl, fun p hp => ?_⟩
    cases hnone.symm.trans hp
  next p hp =>
  have notLate : (p.Receives → deadlineElapsed p.receive.deadline now = false) →
      (p.Sends → p.Receives ∨ deadlineElapsed p.send.deadline now = false) →
      ∀ q, w.procs.at? i = some q → (q.Receives → deadlineElapsed q.receive.deadline now = false) ∧
        (q.Sends → q.Receives ∨ deadlineElapsed q.send.deadline now = false) := by
    intro hr hs q hq
    cases hp.symm.trans hq
    exact ⟨hr, hs⟩
  split at h
  · next hb =>
    cases h
    exact .inl ⟨rfl, notLate (fun hr => absurd hr.1 hb) fun hs => absurd hs.1 hb⟩
  next hb =>
  have hb : p.status = .blocked := not_not.1 hb
  split at h
  · next hr =>
    split at h
    · obtain ⟨w₁, he, h⟩ := Except.bind_eq_ok.1 h
      cases h
      exact .inr (.inl ⟨p, hp, he⟩)
    · next hd =>
      cases h
      exact .inl ⟨rfl, notLate (fun _ => by simpa using hd) fun _ => .inl ⟨hb, hr⟩⟩
  next hr =>
  split at h
  · next hs =>
    cases h
    have hs : p.send.sending = false := by simpa using hs
    exact .inl ⟨rfl, notLate (fun h => absurd h.2 hr) fun h => by simp [h.2] at hs⟩
  next hs =>
  have hs : p.send.sending = true := by simpa using hs
  cases ht : p.send.target
  case' none =>
    simp only [ht] at h
    obtain ⟨⟨o, w₁⟩, ha, hrest⟩ := Except.bind_eq_ok.1 h
    have tried : w.procs.Each Process.Aside w₁.procs ∧ (o = .notReady → w₁ = w) := by
      cases ha
      exact ⟨.refl _, fun _ => rfl⟩
  case' some target =>
    simp only [ht] at h
    obtain ⟨⟨o, w₁⟩, ha, hrest⟩ := Except.bind_eq_ok.1 h
    have tried : w.procs.Each Process.Aside w₁.procs ∧ (o = .notReady → w₁ = w) := by
      refine ⟨attempt_each ha, fun ho => ?_⟩
      obtain ⟨-, hw₁⟩ | ⟨hd, -⟩ := attempt_ok ha
      · exact hw₁
      · cases hd.symm.trans ho
  -- from here on it does not matter whether there was a target
  all_goals
    obtain ⟨hw₁, hsame⟩ := tried
    dsimp only at hrest
    split at hrest
    · next hnone =>
      obtain ⟨q, hq, -⟩ := hw₁.exists_after hp
      cases hnone.symm.trans hq
    next q hq =>
    split at hrest
    · next hnone =>
      -- the send is left only if its target is not ready and its deadline has not passed
      have hleft : o = .notReady ∧ deadlineElapsed p.send.deadline now = false := by
        cases o <;> simp_all
      cases hrest
      exact .inl ⟨hsame hleft.1, notLate (fun h => absurd h.2 hr) fun _ => .inr hleft.2⟩
    · next word _ =>
      obtain ⟨q', hf, hrest⟩ := Except.bind_eq_ok.1 hrest
      have hbq := Process.blocked_of_finishSend hf
      rw [Process.finishSend_of_blocked hbq] at hf
      cases hf
      cases hrest
      exact .inr (.inr ⟨w₁, q, word, hw₁, hq, hbq, rfl⟩)

/-- Looking at a slot in a sweep leaves all signals, and nobody begins to run. -/
theorem sweepSlot_each {ended : Bool} (placed : w.procs.Placed)
    (h : w.sweepSlot now i = .ok (ended, w')) : w.procs.Each Process.Aside w'.procs := by
  obtain ⟨rfl, -⟩ | ⟨p, hp, he⟩ | ⟨w₁, q, word, hw₁, hq, hb, hprocs⟩ := sweepSlot_ok h
  · exact .refl _
  · exact expireReceive_each (placed.at?_slot hp) he
  · have hat := (hw₁.placed (fun h => h.pid) placed).at?_slot hq
    obtain ⟨p, hp, haq⟩ := hw₁.exists_before hat
    rw [hprocs]
    exact hw₁.put hp (haq.trans (.unsent hb word))

/-- A sweep leaves all signals, and nobody begins to run. -/
theorem sweepSlots_each (slots : List (Fin slotCount)) : ∀ {w : Population} {n : Nat},
    w.procs.Placed → sweepSlots now slots w = .ok (n, w') →
      w.procs.Each Process.Aside w'.procs := by
  induction slots with
  | nil =>
    intro w n _ h
    cases h
    exact .refl _
  | cons i rest ih =>
    intro w n placed h
    obtain ⟨⟨_, w₁⟩, hslot, h⟩ := Except.bind_eq_ok.1 h
    obtain ⟨⟨_, w₂⟩, hrest, h⟩ := Except.bind_eq_ok.1 h
    cases h
    have hw₁ := sweepSlot_each placed hslot
    exact hw₁.trans (ih (hw₁.placed (fun h => h.pid) placed) hrest)

/-- What ending overdue receives does at the first of the slots that it looks at: it ends the
receive there and counts it, or it finds none that is over. -/
theorem expireSlots_ok {rest : List (Fin slotCount)} {n : Nat}
    (h : expireSlots now (i :: rest) w = .ok (n, w')) :
    ∃ n' w₁, expireSlots now rest w₁ = .ok (n', w') ∧
      ((w₁ = w ∧ (∀ p, w.procs.at? i = some p → p.Receives →
          deadlineElapsed p.receive.deadline now = false) ∧ n = n') ∨
        ∃ p, w.procs.at? i = some p ∧ p.Receives ∧
          deadlineElapsed p.receive.deadline now = true ∧ w.expireReceive p = .ok w₁ ∧
          n = 1 + n') := by
  rw [expireSlots] at h
  dsimp only at h
  split at h
  · next hnone =>
    obtain ⟨⟨ended, w₁⟩, hslot, h⟩ := Except.bind_eq_ok.1 h
    obtain ⟨⟨n', w₂⟩, hrest, h⟩ := Except.bind_eq_ok.1 h
    cases hslot
    cases h
    refine ⟨n', w, hrest, .inl ⟨rfl, fun p hp => ?_, Nat.zero_add _⟩⟩
    cases hnone.symm.trans hp
  next p hp =>
  split at h
  · next late =>
    obtain ⟨w₁, he, h⟩ := Except.bind_eq_ok.1 h
    obtain ⟨⟨ended, w₂⟩, hslot, h⟩ := Except.bind_eq_ok.1 h
    obtain ⟨⟨n', w₃⟩, hrest, h⟩ := Except.bind_eq_ok.1 h
    cases hslot
    cases h
    exact ⟨n', w₁, hrest, .inr ⟨p, hp, ⟨late.1, late.2.1⟩, late.2.2, he, rfl⟩⟩
  · next hd =>
    obtain ⟨⟨ended, w₁⟩, hslot, h⟩ := Except.bind_eq_ok.1 h
    obtain ⟨⟨n', w₂⟩, hrest, h⟩ := Except.bind_eq_ok.1 h
    cases hslot
    cases h
    refine ⟨n', w, hrest, .inl ⟨rfl, fun q hq hr => ?_, Nat.zero_add _⟩⟩
    cases hp.symm.trans hq
    simpa [hr.1, hr.2] using hd

/-- Ending the overdue receives leaves all signals, and nobody begins to run. -/
theorem expireSlots_each (slots : List (Fin slotCount)) : ∀ {w : Population} {n : Nat},
    w.procs.Placed → expireSlots now slots w = .ok (n, w') →
      w.procs.Each Process.Aside w'.procs := by
  induction slots with
  | nil =>
    intro w n _ h
    cases h
    exact .refl _
  | cons i rest ih =>
    intro w n placed h
    obtain ⟨_, w₁, hrest, ⟨rfl, -⟩ | ⟨p, hp, -, -, he, -⟩⟩ := expireSlots_ok h
    · exact ih placed hrest
    · have hw₁ := expireReceive_each (placed.at?_slot hp) he
      exact hw₁.trans (ih (hw₁.placed (fun h => h.pid) placed) hrest)

/-- Ending overdue receives leaves the memory. -/
theorem expireSlots_memory (slots : List (Fin slotCount)) : ∀ {w : Population} {n : Nat},
    expireSlots now slots w = .ok (n, w') → w'.memory = w.memory := by
  induction slots with
  | nil =>
    intro w n h
    cases h
    rfl
  | cons i rest ih =>
    intro w n h
    obtain ⟨n', w₁, hrest, ⟨rfl, -⟩ | ⟨p, -, -, -, he, -⟩⟩ := expireSlots_ok h
    · exact ih hrest
    · exact (ih hrest).trans (expireReceive_ok he).2.2

/-! ## Futexes -/

/-- Waking the nodes of a queue leaves all signals, and nobody begins to run. -/
theorem wakeQueue_each (address : UInt64) (queue : List Waiter) :
    ∀ (most : Nat) (w : Population),
      w.procs.Each Process.Aside (wakeQueue address most queue w).2.2.procs := by
  induction queue with
  | nil =>
    intro most w
    cases most <;> exact .refl _
  | cons x queue ih =>
    intro most w
    have refl := ProcessTable.Each.refl (R := Process.Aside) w.procs
    cases most with
    | zero => exact refl
    | succ most =>
      rw [wakeQueue]
      split
      · exact ih _ w
      split
      · exact ih _ w
      next p hp =>
      obtain ⟨hat, hpid⟩ := ProcessTable.get?_eq_some.1 hp
      rw [← hpid] at hat
      split
      · next hb =>
        have hw₁ : w.procs.Each Process.Aside
            (w.put { p with futex := none, status := .runnable }).procs :=
          refl.put hat (.of_status (by simp [hb]) (.inr rfl) rfl rfl rfl rfl)
        exact hw₁.trans (ih _ _)
      · have hw₁ : w.procs.Each Process.Aside (w.put { p with futex := none }).procs :=
          refl.put hat ⟨⟨rfl, rfl, rfl, id⟩, rfl, id⟩
        exact hw₁.trans
          (ih (most + 1) ((w.put { p with futex := none }).note _))

/-- Beginning to wait on a futex leaves all signals, and nobody begins to run. -/
theorem futexWait_each {t t' : FutexTable} {address : UInt64} {expected : UInt32}
    {a : Except Errno Unit} (h : w.futexWait t pid address expected = .ok (a, t', w')) :
    w.procs.Each Process.Aside w'.procs := by
  have refl := ProcessTable.Each.refl (R := Process.Aside) w.procs
  unfold futexWait at h
  split at h
  · cases h
    exact refl
  split at h
  · cases h
    exact refl
  next p hp =>
  obtain ⟨hget, live⟩ := ProcessTable.lookup_eq_ok.1 hp
  obtain ⟨hat, rfl⟩ := ProcessTable.get?_eq_some.1 hget
  split at h
  · cases h
  split at h
  · cases h
    exact refl
  split at h
  · cases h
    exact refl
  · cases h
    refine refl.put hat (.of_status live (.inl rfl) rfl rfl rfl ?_)
    exact TrapFrame.get_setReturn_of_ne _ _ nofun

/-- A process that gives up its processor does not run afterwards. -/
theorem yield_each (w : Population) (pid : Pid) :
    w.procs.Each Process.Aside (w.yield pid).procs := by
  have refl := ProcessTable.Each.refl (R := Process.Aside) w.procs
  cases hget : w.procs.get? pid with
  | none =>
    rw [yield, ProcessTable.update, hget]
    exact refl
  | some p =>
    obtain ⟨hat, rfl⟩ := ProcessTable.get?_eq_some.1 hget
    generalize hq : (if p.status = .running then { p with status := .runnable } else p) = q
    have haside : p.Aside q := by
      subst hq
      split
      · next run => exact .of_status (by simp [run]) (.inr rfl) rfl rfl rfl rfl
      · exact .refl p
    have hput : (w.yield p.pid).procs = w.procs.put q := by
      subst hq
      exact ProcessTable.update_eq_put hget haside.pid
    rw [hput]
    rw [← haside.pid] at hat
    exact refl.put hat haside

end Population

end SyncKernel
