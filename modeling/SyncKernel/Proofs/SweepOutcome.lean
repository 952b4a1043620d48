import SyncKernel.Proofs.Messages

/-!
# The outcome of a sweep

What a sweep makes of any table whose records are in the slots of their ids, with the buffers of
those that wait for a message within user memory, whether or not the kernel can come to it. The
sweep visits the slots in ascending order and may change a record that it has not visited yet, or
that it left before: a send that is tried once more hands its message to a receiver in any slot.
Still the outcome can be told from the table at the beginning alone. A receiver gets its message
from the lowest slot that has one for it (`ProcessTable.Meets`), unless its deadline has passed and
its own slot comes first; everybody else's call is ended (`Process.Ended`) or left.
`Process.Reached` says this of a sweep that has come to some slot; one look keeps it
(`ProcessTable.Each.look`), so it holds at the end (`Population.sweep_settles`).
-/

namespace SyncKernel

/-- In a sweep at time `now` the process `s` gets rid of its message to the process `r`: it is the
lowest one that waits to send to `r` and not for a message itself, and if the deadline of `r` has
passed, it comes first. -/
structure ProcessTable.Meets (t : ProcessTable) (now : Millis) (s r : Process) : Prop where
  sender : t.at? s.pid.slot = some s
  receiver : t.at? r.pid.slot = some r
  sends : s.SendsTo r.pid
  alone : ¬ s.Receives
  waits : r.Receives
  first : ∀ j, j < s.pid.slot → ∀ q, t.at? j = some q → q.SendsTo r.pid → q.Receives
  sooner : deadlineElapsed r.receive.deadline now = true → s.pid.slot < r.pid.slot

namespace Process

/-- A sweep of the table `t` at time `now` ends the call on messages of `p` when it comes to its
slot, and this is the record of the process then. -/
inductive Ended (t : ProcessTable) (now : Millis) (p : Process) : Process → Prop where
  /-- A receive is ended at its deadline. -/
  | expired (wait : p.Receives) (late : deadlineElapsed p.receive.deadline now = true)
      (unmet : ∀ s, ¬ t.Meets now s p) : Ended t now p p.expired
  /-- A waiting send is ended, its message having passed. -/
  | delivered {r : Process} (h : t.Meets now p r) : Ended t now p (p.unsent 0)
  /-- A waiting send is ended because it has no target, or its target is gone. -/
  | forsaken (hs : p.Sends) (alone : ¬ p.Receives)
      (gone : ∀ target, p.send.target = some target → ¬ t.Live target) :
      Ended t now p (p.unsent Errno.noSuchProcess.toWord)
  /-- A waiting send is ended at its deadline, its target being there. -/
  | gaveUp {target : Pid} (hs : p.SendsTo target) (alone : ¬ p.Receives) (live : t.Live target)
      (late : deadlineElapsed p.send.deadline now = true) (unmet : ∀ r, ¬ t.Meets now p r) :
      Ended t now p (p.unsent Errno.timedOut.toWord)

/-- What a sweep of the table `t` at time `now` makes of the record `p`. -/
inductive Swept (t : ProcessTable) (now : Millis) (p : Process) : Process → Prop where
  /-- The process is handed a message. -/
  | handed {s : Process} (h : t.Meets now s p) (size : UInt64) (perm : UInt32) :
      Swept t now p (p.handed s.pid s.send.message.value size perm)
  /-- Its call is ended. -/
  | ended {p' : Process} (h : p.Ended t now p') : Swept t now p p'
  /-- There is nothing to do. -/
  | left (unended : ∀ p', ¬ p.Ended t now p') (unmet : ∀ s, ¬ t.Meets now s p) : Swept t now p p

/-- What a sweep of the table `t` at time `now` has made of the record `p` when it comes to the slot
`n`. -/
inductive Reached (t : ProcessTable) (now : Millis) (n : Nat) (p : Process) : Process → Prop where
  /-- The process was handed a message. -/
  | handed {s : Process} (h : t.Meets now s p) (hn : s.pid.slot < n) (size : UInt64)
      (perm : UInt32) : Reached t now n p (p.handed s.pid s.send.message.value size perm)
  /-- Its call was ended. -/
  | ended {p' : Process} (h : p.Ended t now p') (hn : p.pid.slot < n) : Reached t now n p p'
  /-- There was nothing to do so far. -/
  | left (unended : p.pid.slot < n → ∀ p', ¬ p.Ended t now p')
      (unmet : ∀ s, t.Meets now s p → n ≤ s.pid.slot) : Reached t now n p p

end Process

/-- The slots in which a sweep of the table at time `now` ends a call. -/
def ProcessTable.endings (t : ProcessTable) (now : Millis) : Set (Fin slotCount) :=
  {i | ∃ p p', t.at? i = some p ∧ p.Ended t now p'}

/-- Nothing has to be done about the calls on messages of a process: its receive is not past its
deadline, and its waiting send has a target that is there and does not receive, and is not past its
deadline either. -/
def Process.Current (p : Process) (t : ProcessTable) (now : Millis) : Prop :=
  (p.Receives → deadlineElapsed p.receive.deadline now = false) ∧
    (p.Sends → ¬ p.Receives → deadlineElapsed p.send.deadline now = false ∧
      ∃ target r, p.send.target = some target ∧ t.lookup target = .ok r ∧ ¬ r.Receives)

/-- What a sweep at time `now` comes to, of which `n` is the answer and `w'` what it leaves. -/
structure Population.SweepOutcome (now : Millis) (w : Population) (n : Nat) (w' : Population) :
    Prop where
  /-- No record comes, goes or changes but by being handed a message or by the end of its call. -/
  swept : w.procs.Each (Process.Swept w.procs now) w'.procs
  /-- Every call that is to be ended is ended. -/
  ended : ∀ i p p', w.procs.at? i = some p → p.Ended w.procs now p' → w'.procs.at? i = some p'
  /-- A message passes from its sender to its receiver. -/
  passed : ∀ s r, w.procs.Meets now s r → w'.procs.at? s.pid.slot = some (s.unsent 0) ∧
    ∃ size perm,
      w'.procs.at? r.pid.slot = some (r.handed s.pid s.send.message.value size perm)
  /-- The target of a waiting send does not receive any more. -/
  busy : ∀ i p target r, w.procs.at? i = some p → p.SendsTo target → ¬ p.Receives →
    w'.procs.get? target = some r → ¬ r.Receives
  /-- Nothing is left to be done. -/
  current : ∀ i p, w'.procs.at? i = some p → p.Current w'.procs now
  /-- Who was not blocked, or still is, is as before. -/
  kept : ∀ i p p', w.procs.at? i = some p → w'.procs.at? i = some p' →
    p.status ≠ .blocked ∨ p'.status = .blocked → p' = p
  /-- The answer is the number of the calls that were ended. -/
  count : n = (w.procs.endings now).ncard
  /-- The memory changes only if a message passes. -/
  memory : (∀ s r, ¬ w.procs.Meets now s r) → w'.memory = w.memory
  /-- Another sweep at the same time finds nothing to do. -/
  again : w'.sweep now = .ok (0, w')

/-- At time `now`, a look at the slot `i` comes to this: whether a call was ended there, and the
processes and their memory afterwards. -/
inductive Population.Looked (now : Millis) (i : Fin slotCount) (w : Population) :
    Bool → Population → Prop where
  /-- A receive is ended at its deadline. -/
  | expired {p : Process} {w' : Population} (hp : w.procs.at? i = some p) (wait : p.Receives)
      (late : deadlineElapsed p.receive.deadline now = true)
      (procs : w'.procs = w.procs.put p.expired) (memory : w'.memory = w.memory) :
      Looked now i w true w'
  /-- A waiting send is ended, its message passes. -/
  | delivered {p r : Process} {w' : Population} (size : UInt64) (perm : UInt32)
      (hp : w.procs.at? i = some p) (hr : w.procs.at? r.pid.slot = some r) (hs : p.SendsTo r.pid)
      (alone : ¬ p.Receives) (wait : r.Receives)
      (procs : w'.procs =
        (w.procs.put (r.handed p.pid p.send.message.value size perm)).put (p.unsent 0)) :
      Looked now i w true w'
  /-- A waiting send is ended because its target is gone. -/
  | forsaken {p : Process} {w' : Population} (hp : w.procs.at? i = some p) (hs : p.Sends)
      (alone : ¬ p.Receives)
      (gone : ∀ target, p.send.target = some target → ¬ w.procs.Live target)
      (procs : w'.procs = w.procs.put (p.unsent Errno.noSuchProcess.toWord))
      (memory : w'.memory = w.memory) : Looked now i w true w'
  /-- A waiting send is ended at its deadline, its target not receiving. -/
  | gaveUp {p r : Process} {target : Pid} {w' : Population} (hp : w.procs.at? i = some p)
      (hs : p.SendsTo target) (alone : ¬ p.Receives) (hr : w.procs.lookup target = .ok r)
      (busy : ¬ r.Receives) (late : deadlineElapsed p.send.deadline now = true)
      (procs : w'.procs = w.procs.put (p.unsent Errno.timedOut.toWord))
      (memory : w'.memory = w.memory) : Looked now i w true w'
  /-- There is nothing to do. -/
  | left (h : ∀ p, w.procs.at? i = some p → p.Current w.procs now) : Looked now i w false w

namespace Population

variable {w : Population} {p : Process} {i : Fin slotCount} {now : Millis}

/-- Looking at a waiting send that is not a receive as well. -/
theorem sweepSlot_sends (placed : w.procs.Placed) (bounded : w.procs.Bounded)
    (hp : w.procs.at? i = some p) (hs : p.Sends)
    (alone : ¬ p.Receives) : ∃ ended w', w.sweepSlot now i = .ok (ended, w') ∧
      Looked now i w ended w' := by
  have hat : w.procs.at? p.pid.slot = some p := placed.at?_slot hp
  have hr : p.receive.receiving = false := by simpa [Process.Receives, hs.1] using alone
  unfold sweepSlot
  simp only [hp]
  simp only [hs.1, hs.2, hr, ne_eq, not_true_eq_false, if_false, Bool.false_eq_true, Bool.not_true]
  cases ht : p.send.target with
  | none =>
    refine ⟨true, (w.put (p.unsent Errno.noSuchProcess.toWord)).note
      (.sendResolved p.pid .targetGone), ?_, ?_⟩
    · simp only [bind, Except.bind, pure, Except.pure, hp, Process.finishSend_of_blocked hs.1]
    · exact .forsaken hp hs alone (by simp [ht]) rfl rfl
  | some target =>
    have hto : p.SendsTo target := ⟨hs.1, hs.2, ht⟩
    obtain ⟨gone, ha⟩ | ⟨r, hlook, ⟨busy, ha⟩ | ⟨size, perm, w₁, hne, wait, ha, hprocs⟩⟩ :=
      attempt_cases bounded target p.send.message hat fun _ => alone
    · refine ⟨true, (w.put (p.unsent Errno.noSuchProcess.toWord)).note
        (.sendResolved p.pid .targetGone), ?_, .forsaken hp hs alone ?_ rfl rfl⟩
      · simp only [ha, bind, Except.bind, pure, Except.pure, hp,
          Process.finishSend_of_blocked hs.1]
      · rintro target' ht' ⟨r, hr⟩
        cases ht.symm.trans ht'
        exact gone r hr
    · cases late : deadlineElapsed p.send.deadline now with
      | false =>
        refine ⟨false, w, ?_, .left fun q hq => ?_⟩
        · simp only [ha, bind, Except.bind, pure, Except.pure, hp, Bool.false_eq_true, if_false]
        · cases hp.symm.trans hq
          exact ⟨fun hrcv => absurd hrcv alone, fun _ _ => ⟨late, target, r, ht, hlook, busy⟩⟩
      | true =>
        refine ⟨true, (w.put (p.unsent Errno.timedOut.toWord)).note
          (.sendResolved p.pid .notReady), ?_, .gaveUp hp hto alone hlook busy late rfl rfl⟩
        simp only [ha, bind, Except.bind, pure, Except.pure, hp, if_true,
          Process.finishSend_of_blocked hs.1]
    · obtain ⟨hget, -⟩ := ProcessTable.lookup_eq_ok.1 hlook
      obtain ⟨hatr, rfl⟩ := ProcessTable.get?_eq_some.1 hget
      have hp₁ : w₁.procs.at? i = some p := by
        rw [hprocs, ← placed i p hp, ProcessTable.at?_put_of_ne, hat]
        exact fun h => hne h.symm
      refine ⟨true, (w₁.put (p.unsent 0)).note (.sendResolved p.pid .delivered), ?_,
        .delivered size perm hp hatr hto alone wait ?_⟩
      · simp only [ha, bind, Except.bind, pure, Except.pure, hp₁,
          Process.finishSend_of_blocked hs.1]
      · rw [← hprocs]
        rfl

/-- Looking at a slot of a table whose records are in their places, with buffers within user memory,
does not stop. -/
theorem sweepSlot_looked (placed : w.procs.Placed) (bounded : w.procs.Bounded) (now : Millis)
    (i : Fin slotCount) :
    ∃ ended w', w.sweepSlot now i = .ok (ended, w') ∧ Looked now i w ended w' := by
  cases hp : w.procs.at? i with
  | none =>
    refine ⟨false, w, by simp only [sweepSlot, hp], .left fun p hp' => ?_⟩
    cases hp.symm.trans hp'
  | some p =>
    have left : p.Current w.procs now → Looked now i w false w := fun h => .left fun q hq => by
      cases hp.symm.trans hq
      exact h
    by_cases hr : p.Receives
    · cases late : deadlineElapsed p.receive.deadline now with
      | false =>
        refine ⟨false, w, ?_, left ⟨fun _ => late, fun _ hn => absurd hr hn⟩⟩
        simp [sweepSlot, hp, hr.1, hr.2, late]
      | true =>
        refine ⟨true, (w.put p.expired).note (.receiveTimedOut p.pid), ?_,
          .expired hp hr late rfl rfl⟩
        simp [sweepSlot, hp, hr.1, hr.2, late, expireReceive,
          Process.expireReceive_of_blocked hr.1, bind, Except.bind, pure, Except.pure]
    by_cases hs : p.Sends
    · exact sweepSlot_sends placed bounded hp hs hr
    · refine ⟨false, w, ?_, left ⟨fun h => absurd h hr, fun h => absurd h hs⟩⟩
      simp only [Process.Receives, Process.Sends, not_and, Bool.not_eq_true] at hr hs
      by_cases hb : p.status = .blocked
      · simp [sweepSlot, hp, hb, hr hb, hs hb]
      · simp [sweepSlot, hp, hb]

end Population

/-! ## A sweep on its way -/

namespace ProcessTable

variable {t u : ProcessTable} {p p' q r s : Process} {i : Fin slotCount} {now : Millis}
  {n : Nat}

/-- Only one process gets rid of its message to a receiver. -/
theorem Meets.unique (h : t.Meets now s r) (h' : t.Meets now q r) : s = q := by
  rcases lt_trichotomy s.pid.slot q.pid.slot with hlt | heq | hlt
  · exact absurd (h'.first _ hlt s h.sender h.sends) h.alone
  · have hat := h.sender
    rw [heq, h'.sender] at hat
    exact (Option.some.inj hat).symm
  · exact absurd (h.first _ hlt q h'.sender h'.sends) h'.alone

/-- A process gets rid of its message to one receiver only. -/
theorem Meets.receiver_unique (h : t.Meets now s p) (h' : t.Meets now s r) : p = r := by
  have hpid : p.pid = r.pid := by
    have htarget := h.sends.2.2.symm.trans h'.sends.2.2
    exact Option.some.inj htarget
  have hat := h.receiver
  rw [hpid, h'.receiver] at hat
  exact (Option.some.inj hat).symm

/-- A receiver is there and not dying. -/
theorem Meets.live (h : t.Meets now s r) : t.Live r.pid :=
  ⟨r, lookup_of_live h.receiver (by simp [h.waits.1])⟩

/-- A process that gets its message from another one is not ended by the sweep itself. -/
theorem Meets.not_ended (h : t.Meets now s r) : ¬ r.Ended t now p' := fun he => by
  cases he with
  | expired _ _ unmet => exact unmet s h
  | delivered h' => exact h'.alone h.waits
  | forsaken _ alone _ => exact alone h.waits
  | gaveUp _ alone _ _ _ => exact alone h.waits

end ProcessTable

namespace Process

variable {t u : ProcessTable} {p p' q r s : Process} {i : Fin slotCount} {now : Millis}
  {n : Nat}

/-- Ending a call leaves the id. -/
theorem Ended.pid (h : p.Ended t now p') : p'.pid = p.pid := by
  cases h <;> rfl

/-- A process whose call is ended is runnable. -/
theorem Ended.runnable (h : p.Ended t now p') : p'.status = .runnable := by
  cases h <;> rfl

/-- A process whose call is ended was blocked. -/
theorem Ended.blocked (h : p.Ended t now p') : p.status = .blocked := by
  cases h with
  | expired wait _ _ => exact wait.1
  | delivered h => exact h.sends.1
  | forsaken hs _ _ => exact hs.1
  | gaveUp hs _ _ _ _ => exact hs.1

/-- A call that a sweep ends is ended in one way. -/
theorem Ended.unique (h : p.Ended t now p') (h' : p.Ended t now q) : p' = q := by
  cases h with
  | expired wait _ _ =>
    cases h' with
    | expired _ _ _ => rfl
    | delivered h => exact absurd wait h.alone
    | forsaken _ alone _ | gaveUp _ alone _ _ _ => exact absurd wait alone
  | delivered h =>
    cases h' with
    | expired wait _ _ => exact absurd wait h.alone
    | delivered _ => rfl
    | forsaken _ _ gone => exact absurd h.live (gone _ h.sends.2.2)
    | gaveUp _ _ _ _ unmet => exact absurd h (unmet _)
  | forsaken _ alone gone =>
    cases h' with
    | expired wait _ _ => exact absurd wait alone
    | delivered h => exact absurd h.live (gone _ h.sends.2.2)
    | forsaken _ _ _ => rfl
    | gaveUp hs _ live _ _ => exact absurd live (gone _ hs.2.2)
  | gaveUp hs alone live _ unmet =>
    cases h' with
    | expired wait _ _ => exact absurd wait alone
    | delivered h => exact absurd h (unmet _)
    | forsaken _ _ gone => exact absurd live (gone _ hs.2.2)
    | gaveUp _ _ _ _ _ => rfl

namespace Reached

/-- A sweep leaves all ids. -/
theorem pid (h : p.Reached t now n p') : p'.pid = p.pid := by
  cases h with
  | handed _ _ _ _ => rfl
  | ended h _ => exact h.pid
  | left _ _ => rfl

/-- A process that is still blocked was left alone. -/
theorem of_blocked (h : p.Reached t now n p') (hb : p'.status = .blocked) :
    p' = p ∧ (p.pid.slot < n → ∀ q, ¬ p.Ended t now q) ∧
      ∀ s, t.Meets now s p → n ≤ s.pid.slot := by
  cases h with
  | handed _ _ _ _ => cases hb
  | ended h _ =>
    rw [h.runnable] at hb
    cases hb
  | left unended unmet => exact ⟨rfl, unended, unmet⟩

/-- A process that was not blocked was left alone. -/
theorem eq_of_ne (h : p.Reached t now n p') (hb : p.status ≠ .blocked) : p' = p := by
  cases h with
  | handed h _ _ _ => exact absurd h.waits.1 hb
  | ended h _ => exact absurd h.blocked hb
  | left _ _ => rfl

/-- A sweep leaves alone who is dying. -/
theorem dying_iff (h : p.Reached t now n p') : p'.status = .dying ↔ p.status = .dying := by
  by_cases hb : p.status = .blocked
  · by_cases hb' : p'.status = .blocked
    · simp [hb, hb']
    · cases h with
      | handed _ _ _ _ => simp [hb, Process.handed]
      | ended h _ => simp [hb, h.runnable]
      | left _ _ => exact absurd hb hb'
  · rw [h.eq_of_ne hb]

/-- A look at a slot changes nothing for a process in another one whom the process there has no
message for. -/
theorem succ (h : p.Reached t now i p') (hi : p.pid.slot ≠ i)
    (unmet : ∀ s, s.pid.slot = i → ¬ t.Meets now s p) : p.Reached t now (i + 1) p' := by
  cases h with
  | handed h hn size perm => exact .handed h (by omega) size perm
  | ended h hn => exact .ended h (by omega)
  | left unended later =>
    refine .left (fun hn => unended ?_) fun s hs => ?_
    · have hne : (p.pid.slot : Nat) ≠ i := fun he => hi (Fin.ext he)
      omega
    · have hle := later s hs
      have hne : (s.pid.slot : Nat) ≠ i := fun he => unmet s (Fin.ext he) hs
      omega

end Reached

end Process

namespace ProcessTable

section
variable {t u : ProcessTable} {p p' q r s : Process} {i j : Fin slotCount} {now : Millis} {n : Nat}

/-- While it is under way, a sweep leaves alone who is there and not dying. -/
theorem Each.live_iff (h : t.Each (Process.Reached t now n) u) (pid : Pid) :
    u.Live pid ↔ t.Live pid := by
  simp only [Live, lookup_eq_ok, get?_eq_some]
  constructor
  · rintro ⟨p', ⟨hp', hpid⟩, live⟩
    obtain ⟨p, hp, hr⟩ := h.exists_before hp'
    exact ⟨p, ⟨hp, hr.pid ▸ hpid⟩, fun hd => live (hr.dying_iff.2 hd)⟩
  · rintro ⟨p, ⟨hp, hpid⟩, live⟩
    obtain ⟨p', hp', hr⟩ := h.exists_after hp
    exact ⟨p', ⟨hp', hr.pid.trans hpid⟩, fun hd => live (hr.dying_iff.1 hd)⟩

/-- A process that is still blocked when a sweep is under way has its first record. -/
theorem Each.of_blocked (h : t.Each (Process.Reached t now n) u) (hp : u.at? i = some p)
    (hb : p.status = .blocked) :
    t.at? i = some p ∧ (p.pid.slot < n → ∀ q, ¬ p.Ended t now q) ∧
      ∀ s, t.Meets now s p → n ≤ s.pid.slot := by
  obtain ⟨p₀, hp₀, hr⟩ := h.exists_before hp
  obtain ⟨rfl, unended, unmet⟩ := hr.of_blocked hb
  exact ⟨hp₀, unended, unmet⟩

/-- A sweep gives nobody a longer buffer. -/
theorem Each.bounded (h : t.Each (Process.Reached t now n) u) (bounded : t.Bounded) : u.Bounded :=
  fun i p hp wait => bounded i p (h.of_blocked hp wait.1).1 wait

/-- A process still receives when the sweep comes to the one whose message it gets. -/
theorem Meets.waits_at (hm : t.Meets now s r) (h : t.Each (Process.Reached t now s.pid.slot) u) :
    u.at? r.pid.slot = some r := by
  obtain ⟨r', hr', hr⟩ := h.exists_after hm.receiver
  cases hr with
  | handed hm' hn _ _ =>
    rw [hm'.unique hm] at hn
    exact absurd hn (lt_irrefl _)
  | ended he _ => exact absurd he hm.not_ended
  | left _ _ => exact hr'

/-- A sender whose target still receives when the sweep has come no further than to the sender is
the one whose message the target gets. -/
theorem Each.meets (h : t.Each (Process.Reached t now n) u) (placed : t.Placed)
    (hn : p.pid.slot ≤ n) (hp : t.at? p.pid.slot = some p) (hs : p.SendsTo r.pid)
    (alone : ¬ p.Receives) (hr : u.at? r.pid.slot = some r) (wait : r.Receives) :
    t.Meets now p r := by
  obtain ⟨hr₀, unended, unmet⟩ := h.of_blocked hr wait.1
  -- the receiver's own slot is still to come if its deadline has passed
  have sooner : deadlineElapsed r.receive.deadline now = true → p.pid.slot < r.pid.slot := by
    intro late
    have hne : p.pid.slot ≠ r.pid.slot := fun he => by
      rw [← he, hp] at hr₀
      cases hr₀
      exact alone wait
    by_contra hle
    have hlt : r.pid.slot < p.pid.slot := lt_of_le_of_ne (not_lt.1 hle) hne.symm
    refine unended (by omega) _ (.expired wait late fun s hm => ?_)
    have hlater := unmet s hm
    have hsooner := hm.sooner late
    omega
  refine ⟨hp, hr₀, hs, alone, wait, fun j hj q hq hqs => ?_, sooner⟩
  by_contra hqr
  -- otherwise the lowest sender before would have met the receiver
  obtain ⟨m, ⟨s, hat, hms, hmr⟩, lowest⟩ := wellFounded_lt.has_min
    {m | ∃ s, t.at? m = some s ∧ s.SendsTo r.pid ∧ ¬ s.Receives} ⟨j, q, hq, hqs, hqr⟩
  obtain rfl : s.pid.slot = m := placed m s hat
  have hlt : s.pid.slot < p.pid.slot := lt_of_le_of_lt (not_lt.1 (lowest j ⟨q, hq, hqs, hqr⟩)) hj
  have hm : t.Meets now s r := by
    refine ⟨hat, hr₀, hms, hmr, wait, fun k hk x hx hxs => ?_, fun late => hlt.trans (sooner late)⟩
    by_contra hxr
    exact lowest k ⟨x, hx, hxs, hxr⟩ hk
  have hlater := unmet s hm
  omega

/-- A look at a slot leaves another one as it is, if the process looked at has no message for the
process there. -/
theorem Each.succ_of_ne (h : t.Each (Process.Reached t now i) u) (placed : t.Placed) (hj : i ≠ j)
    (unmet : ∀ s r, t.at? i = some s → t.at? j = some r → ¬ t.Meets now s r) :
    Option.Rel (Process.Reached t now (i + 1)) (t.at? j) (u.at? j) := by
  cases ht : t.at? j with
  | none =>
    rw [h.at?_eq_none ht]
    exact .none
  | some r =>
    obtain ⟨r', hr', hr⟩ := h.exists_after ht
    rw [hr']
    refine .some (hr.succ (fun he => hj ?_) fun s hs hm => ?_)
    · rw [← he, placed j r ht]
    · exact unmet s r (hs ▸ hm.sender) ht hm

/-- A look that ends a call, the message of which does not pass. -/
theorem Each.put_ended (h : t.Each (Process.Reached t now p.pid.slot) u) (placed : t.Placed)
    (hp : t.at? p.pid.slot = some p) (he : p.Ended t now p') (alone : ∀ r, ¬ t.Meets now p r) :
    t.Each (Process.Reached t now (p.pid.slot + 1)) (u.put p') := by
  have hslot : p'.pid.slot = p.pid.slot := by rw [he.pid]
  intro j
  by_cases hj : p.pid.slot = j
  · have hat : (u.put p').at? p.pid.slot = some p' := hslot ▸ at?_put_self
    rw [← hj, hp, hat]
    exact .some (.ended he (Nat.lt_succ_self _))
  · rw [at?_put_of_ne (hslot ▸ hj)]
    refine h.succ_of_ne placed hj fun s r hs _ => ?_
    cases hp.symm.trans hs
    exact alone r

/-- A look at a sender that gets rid of its message. -/
theorem Each.put_delivered (h : t.Each (Process.Reached t now p.pid.slot) u) (placed : t.Placed)
    (hm : t.Meets now p r) (size : UInt64) (perm : UInt32) :
    t.Each (Process.Reached t now (p.pid.slot + 1))
      ((u.put (r.handed p.pid p.send.message.value size perm)).put (p.unsent 0)) := by
  have hne : p.pid.slot ≠ r.pid.slot := fun he => by
    have hat := hm.sender
    rw [he, hm.receiver] at hat
    cases hat
    exact hm.alone hm.waits
  intro j
  by_cases hj : p.pid.slot = j
  · have hat : ∀ v : ProcessTable, (v.put (p.unsent 0)).at? p.pid.slot = some (p.unsent 0) :=
      fun v => at?_put_self
    rw [← hj, hm.sender, hat]
    exact .some (.ended (.delivered hm) (Nat.lt_succ_self _))
  rw [at?_put_of_ne (show (p.unsent 0).pid.slot ≠ j from hj)]
  by_cases hjr : r.pid.slot = j
  · generalize hr' : r.handed p.pid p.send.message.value size perm = r'
    have hslot : r'.pid.slot = r.pid.slot := by rw [← hr']; rfl
    have hat : (u.put r').at? r.pid.slot = some r' := hslot ▸ at?_put_self
    rw [← hjr, hm.receiver, hat, ← hr']
    exact .some (.handed hm (Nat.lt_succ_self _) size perm)
  · rw [at?_put_of_ne (show (r.handed _ _ _ _).pid.slot ≠ j from hjr)]
    refine h.succ_of_ne placed hj fun s q hs hq hsq => hjr ?_
    cases hm.sender.symm.trans hs
    rw [hm.receiver_unique hsq]
    exact placed j q hq

/-- A process for which nothing has to be done has no message to get rid of. -/
theorem Each.unmet_of_current (h : t.Each (Process.Reached t now p.pid.slot) u)
    (hc : p.Current u now) : ¬ t.Meets now p r := fun hm => by
  obtain ⟨-, target, q, ht, hq, busy⟩ := hc.2 hm.sends.sends hm.alone
  cases hm.sends.2.2.symm.trans ht
  have hat := hm.waits_at h
  rw [(get?_eq_some.1 (lookup_eq_ok.1 hq).1).1] at hat
  cases hat
  exact busy hm.waits

/-- A process for which nothing has to be done is in no call that a sweep ends. -/
theorem Each.not_ended_of_current (h : t.Each (Process.Reached t now p.pid.slot) u)
    (hc : p.Current u now) : ¬ p.Ended t now p' := fun he => by
  cases he with
  | expired wait late _ => exact absurd (hc.1 wait) (by simp [late])
  | delivered hm => exact h.unmet_of_current hc hm
  | forsaken hs alone gone =>
    obtain ⟨-, target, q, ht, hq, -⟩ := hc.2 hs alone
    exact gone target ht ((h.live_iff target).1 ⟨q, hq⟩)
  | gaveUp hs alone _ late _ => exact absurd (hc.2 hs.sends alone).1 (by simp [late])

/-- A look at a slot where nothing has to be done. -/
theorem Each.left (h : t.Each (Process.Reached t now i) u) (placed : t.Placed)
    (hc : ∀ p, u.at? i = some p → p.Current u now) :
    t.Each (Process.Reached t now (i + 1)) u := fun j => by
  by_cases hj : i = j
  · subst hj
    cases ht : t.at? i with
    | none =>
      rw [h.at?_eq_none ht]
      exact .none
    | some p =>
      obtain rfl := placed i p ht
      obtain ⟨p', hp', hr⟩ := h.exists_after ht
      rw [hp']
      cases hr with
      | handed hm hn size perm => exact .some (.handed hm (Nat.lt_succ_of_lt hn) size perm)
      | ended _ hn => exact absurd hn (lt_irrefl _)
      | left _ unmet =>
        refine .some (.left (fun _ q => h.not_ended_of_current (hc p hp')) fun s hs => ?_)
        have hne : p.pid.slot ≠ s.pid.slot := fun he => by
          rw [he, hs.sender] at ht
          cases ht
          exact hs.alone hs.waits
        exact Nat.lt_of_le_of_ne (unmet s hs) fun he => hne (Fin.ext he)
  · refine h.succ_of_ne placed hj fun s r hs _ hm => ?_
    obtain rfl := placed i s hs
    obtain ⟨s', hs', hr⟩ := h.exists_after hs
    cases hr with
    | handed hm' _ _ _ => exact hm.alone hm'.waits
    | ended _ hn => exact lt_irrefl _ hn
    | left _ _ => exact h.unmet_of_current (hc s hs') hm

/-- One look takes a sweep from a slot to the next, and says whether a call was ended there. -/
theorem Each.look {w w' : Population} {ended : Bool}
    (h : t.Each (Process.Reached t now i) w.procs) (placed : t.Placed)
    (look : w.Looked now i ended w') :
    t.Each (Process.Reached t now (i + 1)) w'.procs ∧
      (ended = true ↔ i ∈ t.endings now) ∧
      ((∀ s r, ¬ t.Meets now s r) → w'.memory = w.memory) := by
  cases look with
  | @expired p _ hp wait late procs memory =>
    obtain ⟨hp₀, -, unmet⟩ := h.of_blocked hp wait.1
    obtain rfl := placed i p hp₀
    have he : p.Ended t now p.expired :=
      .expired wait late fun s hs => absurd (hs.sooner late) (not_lt.2 (unmet s hs))
    rw [procs]
    exact ⟨h.put_ended placed hp₀ he fun r hr => hr.alone wait,
      iff_of_true rfl ⟨p, _, hp₀, he⟩, fun _ => memory⟩
  | @delivered p r _ size perm hp hr hs alone wait procs =>
    obtain ⟨hp₀, -, -⟩ := h.of_blocked hp hs.1
    obtain rfl := placed i p hp₀
    have hm : t.Meets now p r := h.meets placed le_rfl hp₀ hs alone hr wait
    rw [procs]
    exact ⟨h.put_delivered placed hm size perm, iff_of_true rfl ⟨p, _, hp₀, .delivered hm⟩,
      fun hnone => absurd hm (hnone p r)⟩
  | @forsaken p _ hp hs alone gone procs memory =>
    obtain ⟨hp₀, -, -⟩ := h.of_blocked hp hs.1
    obtain rfl := placed i p hp₀
    have gone₀ : ∀ target, p.send.target = some target → ¬ t.Live target :=
      fun target ht hl => gone target ht ((h.live_iff target).2 hl)
    have he : p.Ended t now _ := .forsaken hs alone gone₀
    rw [procs]
    refine ⟨h.put_ended placed hp₀ he fun r hr => ?_, iff_of_true rfl ⟨p, _, hp₀, he⟩,
      fun _ => memory⟩
    exact gone₀ r.pid hr.sends.2.2 hr.live
  | @gaveUp p r target _ hp hs alone hr busy late procs memory =>
    obtain ⟨hp₀, -, -⟩ := h.of_blocked hp hs.1
    obtain rfl := placed i p hp₀
    have unmet : ∀ q, ¬ t.Meets now p q := fun q hq => by
      cases hs.2.2.symm.trans hq.sends.2.2
      have hat := hq.waits_at h
      rw [(get?_eq_some.1 (lookup_eq_ok.1 hr).1).1] at hat
      cases hat
      exact busy hq.waits
    have he : p.Ended t now _ := .gaveUp hs alone ((h.live_iff target).1 ⟨r, hr⟩) late unmet
    rw [procs]
    exact ⟨h.put_ended placed hp₀ he unmet, iff_of_true rfl ⟨p, _, hp₀, he⟩, fun _ => memory⟩
  | left hc =>
    refine ⟨h.left placed hc, iff_of_false (by simp) ?_, fun _ => rfl⟩
    rintro ⟨p, p', hp, he⟩
    obtain rfl := placed i p hp
    obtain ⟨q, hq, hr⟩ := h.exists_after hp
    cases hr with
    | handed hm _ _ _ => exact hm.not_ended he
    | ended _ hn => exact lt_irrefl _ hn
    | left _ _ => exact h.not_ended_of_current (hc p hq) he

end

end ProcessTable

/-! ## A sweep at its end -/

namespace ProcessTable.Each

variable {t u : ProcessTable} {p p' r s : Process} {target : Pid} {i : Fin slotCount} {now : Millis}
  (h : t.Each (Process.Reached t now slotCount) u)
include h

/-- What was not ended when all slots were visited is not to be ended. -/
theorem swept : t.Each (Process.Swept t now) u :=
  h.mono fun {p p'} hr => by
    cases hr with
    | handed hm _ size perm => exact .handed hm size perm
    | ended he _ => exact .ended he
    | left unended unmet =>
      exact .left (unended p.pid.slot.isLt) fun s hs =>
        absurd s.pid.slot.isLt (not_lt.2 (unmet s hs))

/-- A call that a sweep ends is ended when all slots were visited. -/
theorem at_ended (hp : t.at? i = some p) (he : p.Ended t now p') : u.at? i = some p' := by
  obtain ⟨q, hq, hr⟩ := h.swept.exists_after hp
  cases hr with
  | handed hm _ _ => exact absurd he hm.not_ended
  | ended he' => rw [hq, he.unique he']
  | left unended _ => exact absurd he (unended p')

/-- A message that passes in a sweep has passed when all slots were visited. -/
theorem at_met (hm : t.Meets now s r) : u.at? s.pid.slot = some (s.unsent 0) ∧
    ∃ size perm, u.at? r.pid.slot = some (r.handed s.pid s.send.message.value size perm) := by
  refine ⟨h.at_ended hm.sender (.delivered hm), ?_⟩
  obtain ⟨r', hr', hr⟩ := h.swept.exists_after hm.receiver
  cases hr with
  | handed hm' size perm =>
    rw [hm'.unique hm] at hr'
    exact ⟨size, perm, hr'⟩
  | ended he => exact absurd he hm.not_ended
  | left _ unmet => exact absurd hm (unmet s)

/-- A process that was not blocked or still is has its first record. -/
theorem kept (hp : t.at? i = some p) (hp' : u.at? i = some p')
    (hb : p.status ≠ .blocked ∨ p'.status = .blocked) : p' = p := by
  obtain ⟨q, hq, hr⟩ := h.exists_after hp
  cases hp'.symm.trans hq
  rcases hb with hb | hb
  · exact hr.eq_of_ne hb
  · exact (hr.of_blocked hb).1

variable (placed : t.Placed)
include placed

/-- A sender whose target receives had its turn. -/
theorem busy (hp : t.at? i = some p) (hs : p.SendsTo target) (alone : ¬ p.Receives)
    (hr : u.get? target = some r) : ¬ r.Receives := fun wait => by
  obtain ⟨hat, rfl⟩ := get?_eq_some.1 hr
  have hm : t.Meets now p r :=
    h.meets placed (le_of_lt p.pid.slot.isLt) (placed.at?_slot hp) hs alone hat wait
  exact absurd p.pid.slot.isLt (not_lt.2 ((h.of_blocked hat wait.1).2.2 p hm))

/-- Nothing is left to be done when all slots were visited. -/
theorem current (hp : u.at? i = some p) : p.Current u now := by
  refine ⟨fun wait => ?_, fun hs alone => ?_⟩
  · obtain ⟨-, unended, unmet⟩ := h.of_blocked hp wait.1
    by_contra late
    exact unended p.pid.slot.isLt _ (.expired wait (by simpa using late) fun s hm =>
      absurd s.pid.slot.isLt (not_lt.2 (unmet s hm)))
  · obtain ⟨hp₀, unended, -⟩ := h.of_blocked hp hs.1
    have unended := unended p.pid.slot.isLt
    have hlive : ∃ target, p.send.target = some target ∧ t.Live target := by
      by_contra hnone
      exact unended _ (.forsaken hs alone fun target ht hl => hnone ⟨target, ht, hl⟩)
    obtain ⟨target, ht, hl⟩ := hlive
    have hto : p.SendsTo target := ⟨hs.1, hs.2, ht⟩
    obtain ⟨r, hr⟩ := (h.live_iff target).2 hl
    refine ⟨?_, target, r, ht, hr, h.busy placed hp₀ hto alone (lookup_eq_ok.1 hr).1⟩
    by_contra late
    exact unended _ (.gaveUp hto alone hl (by simpa using late) fun r hm =>
      unended _ (.delivered hm))

end ProcessTable.Each

namespace Population

variable {t : ProcessTable} {w : Population} {now : Millis}

/-- A sweep that has come to the slot `n` goes on to the end. It answers the number of the calls it
ends from there on, and leaves the memory unless a message passes. -/
theorem sweepSlots_reached (placed : t.Placed) (bounded : t.Bounded) :
    ∀ (m n : Nat) {w : Population}, n + m = slotCount → t.Each (Process.Reached t now n) w.procs →
    ∃ count w', sweepSlots now ((List.finRange slotCount).drop n) w = .ok (count, w') ∧
      t.Each (Process.Reached t now slotCount) w'.procs ∧
      count = (t.endings now ∩ {i | n ≤ (i : Nat)}).ncard ∧
      ((∀ s r, ¬ t.Meets now s r) → w'.memory = w.memory)
  | 0, n, w, hn, h => by
    have hn : n = slotCount := hn
    subst hn
    have hnone : {i : Fin slotCount | slotCount ≤ (i : Nat)} = ∅ :=
      Set.eq_empty_of_forall_notMem fun i hi => absurd i.isLt (not_lt.2 hi)
    refine ⟨0, w, ?_, h, ?_, fun _ => rfl⟩
    · rw [List.drop_of_length_le (by simp), sweepSlots]
    · rw [hnone, Set.inter_empty, Set.ncard_empty]
  | m + 1, n, w, hn, h => by
    have hlt : n < slotCount := by omega
    have hw : w.procs.Placed := h.placed (fun h => h.pid) placed
    obtain ⟨ended, w₁, hlook, look⟩ := sweepSlot_looked hw (h.bounded bounded) now ⟨n, hlt⟩
    obtain ⟨h₁, hended, hmem₁⟩ := ProcessTable.Each.look (i := ⟨n, hlt⟩) h placed look
    obtain ⟨count, w', hrest, h', hcount, hmem⟩ :=
      sweepSlots_reached placed bounded m (n + 1) (by omega) h₁
    have hdrop : (List.finRange slotCount).drop n =
        ⟨n, hlt⟩ :: (List.finRange slotCount).drop (n + 1) := by
      rw [List.drop_eq_getElem_cons (by simpa using hlt), List.getElem_finRange]
      rfl
    refine ⟨ended.toNat + count, w', ?_, h', ?_, fun hnone => (hmem hnone).trans (hmem₁ hnone)⟩
    · rw [hdrop, sweepSlots]
      simp only [bind, Except.bind, hlook, hrest]
      rfl
    · have hset : {i : Fin slotCount | n ≤ (i : Nat)} =
          insert ⟨n, hlt⟩ {i : Fin slotCount | n + 1 ≤ (i : Nat)} := by
        ext i
        simp only [Set.mem_ofPred_eq, Set.mem_insert_iff, Fin.ext_iff]
        omega
      have hnot : (⟨n, hlt⟩ : Fin slotCount) ∉ t.endings now ∩ {i | n + 1 ≤ (i : Nat)} :=
        fun hmem => absurd hmem.2 (by simp)
      rw [hset, hcount]
      cases ended with
      | false =>
        rw [Set.inter_insert_of_notMem fun hmem => absurd (hended.2 hmem) (by simp)]
        simp
      | true =>
        rw [Set.inter_insert_of_mem (hended.1 rfl), Set.ncard_insert_of_notMem hnot]
        simp [Nat.add_comm]

/-- Looking at a slot where nothing has to be done changes nothing. -/
theorem sweepSlot_of_current {i : Fin slotCount} (placed : w.procs.Placed)
    (bounded : w.procs.Bounded)
    (hc : ∀ p, w.procs.at? i = some p → p.Current w.procs now) :
    w.sweepSlot now i = .ok (false, w) := by
  obtain ⟨ended, w', hlook, look⟩ := sweepSlot_looked placed bounded now i
  rw [hlook]
  cases look with
  | expired hp wait late _ _ => exact absurd ((hc _ hp).1 wait) (by simp [late])
  | @delivered p r _ _ _ hp hr hs alone wait _ =>
    obtain ⟨-, target, q, ht, hq, busy⟩ := (hc p hp).2 hs.sends alone
    cases hs.2.2.symm.trans ht
    cases hq.symm.trans (ProcessTable.lookup_of_live hr (by simp [wait.1]))
    exact absurd wait busy
  | @forsaken p _ hp hs alone gone _ _ =>
    obtain ⟨-, target, q, ht, hq, -⟩ := (hc p hp).2 hs alone
    exact absurd ⟨q, hq⟩ (gone target ht)
  | gaveUp hp hs alone _ _ late _ _ => exact absurd ((hc _ hp).2 hs.sends alone).1 (by simp [late])
  | left _ => rfl

/-- Where nothing has to be done, a sweep does nothing. -/
theorem sweepSlots_of_current (placed : w.procs.Placed) (bounded : w.procs.Bounded)
    (hc : ∀ i p, w.procs.at? i = some p → p.Current w.procs now) :
    ∀ slots, sweepSlots now slots w = .ok (0, w)
  | [] => rfl
  | i :: rest => by
    rw [sweepSlots]
    simp only [bind, Except.bind, sweepSlot_of_current placed bounded (hc i),
      sweepSlots_of_current placed bounded hc rest]
    rfl

/-- A sweep of processes whose records are in the slots of their ids comes to its end, if those that
wait for a message have buffers within user memory. -/
theorem exists_sweepOutcome (placed : w.procs.Placed) (bounded : w.procs.Bounded) (now : Millis) :
    ∃ n w', w.sweep now = .ok (n, w') ∧ w.SweepOutcome now n w' := by
  have h₀ : w.procs.Each (Process.Reached w.procs now 0) w.procs := fun i => by
    cases w.procs.at? i with
    | none => exact .none
    | some p => exact .some (.left (fun h => absurd h (Nat.not_lt_zero _)) fun _ _ => Nat.zero_le _)
  obtain ⟨n, w', hs, h, hn, hmem⟩ :=
    sweepSlots_reached placed bounded slotCount 0 (Nat.zero_add _) h₀
  rw [List.drop_zero] at hs
  have hcurrent : ∀ i p, w'.procs.at? i = some p → p.Current w'.procs now :=
    fun i p hp => h.current placed hp
  refine ⟨n, w', hs, fun i => ?_, fun i p p' => h.at_ended, fun s r => h.at_met,
    fun i p target r => h.busy placed, hcurrent, fun i p p' => h.kept, ?_, hmem, ?_⟩
  · exact h.swept i
  · rw [hn]
    congr
    ext i
    simp
  · exact sweepSlots_of_current (h.placed (fun h => h.pid) placed) (h.bounded bounded) hcurrent _

/-- A sweep of any processes whose records are in the slots of their ids, with buffers no longer
than user memory, comes to its end. It ends the calls that are over and passes the messages of the
senders that come first, counts the calls it ended, changes nobody else, and leaves nothing to be
done. -/
theorem sweep_settles (placed : w.procs.Placed)
    (bounded : ∀ i p, w.procs.at? i = some p → p.receive.capacity.toNat ≤ userLimit)
    (now : Millis) :
    ∃ n w', w.sweep now = .ok (n, w') ∧ w.SweepOutcome now n w' :=
  exists_sweepOutcome placed (fun i p hp _ => bounded i p hp) now

/-- A process in the first slot waits to send the word 7 to the one in the second, which waits for a
message until time 5. -/
def lateReceiver : Population where
  procs :=
    (({} : ProcessTable).put
      { pid := .ofSlot 1 0, status := .blocked, frame := .newUser 0x1000 0x2000, space := 0
        send := ⟨true, some (.ofSlot 1 1), { value := 7 }, some 5⟩ }).put
      { pid := .ofSlot 1 1, status := .blocked, frame := .newUser 0x1000 0x2000, space := 1
        receive := { receiving := true, deadline := some 5 } }

/-- The receiver gets its message after its deadline, since the sender is in the lower slot. -/
theorem sweep_settles_of_lateReceiver :
    lateReceiver.procs.Placed ∧
      (∀ i p, lateReceiver.procs.at? i = some p → p.receive.capacity.toNat ≤ userLimit) ∧
      ∃ n w', lateReceiver.sweep 9 = .ok (n, w') ∧ lateReceiver.SweepOutcome 9 n w' ∧ n = 1 := by
  have hrecords : ∀ i p, lateReceiver.procs.at? i = some p →
      p.pid.slot = i ∧ p.receive.capacity.toNat ≤ userLimit := by
    intro i p hp
    rcases ProcessTable.at?_put_cases hp with ⟨hi, rfl⟩ | ⟨-, hp⟩
    · exact ⟨hi, Nat.zero_le _⟩
    rcases ProcessTable.at?_put_cases hp with ⟨hi, rfl⟩ | ⟨-, hp⟩
    · exact ⟨hi, Nat.zero_le _⟩
    · cases hp
  have placed : lateReceiver.procs.Placed := fun i p hp => (hrecords i p hp).1
  have bounded : ∀ i p, lateReceiver.procs.at? i = some p →
      p.receive.capacity.toNat ≤ userLimit := fun i p hp => (hrecords i p hp).2
  obtain ⟨n, w', hs, h⟩ := sweep_settles placed bounded 9
  have hn : (lateReceiver.sweep 9).toOption.map (·.1) = some 1 := by decide +kernel
  rw [hs] at hn
  exact ⟨placed, bounded, n, w', hs, h, Option.some.inj hn⟩

end Population

end SyncKernel
