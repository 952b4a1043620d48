import SyncKernel.Message.Call
import SyncKernel.Proofs.Sound

/-!
# Calls on messages

What passing a message and the three calls on messages do to the process table.
`Population.attempt_cases` says when an attempt fails and that one that succeeds hands the message
to the target and changes no other process. From it follow the results of the calls
(`trySend_ends`, `sendTimeout_ends`, `receive_ends`): each passes one message, or blocks its caller,
or changes nothing. A receive that finds a waiting sender always gets its message, so that no
process waits for a message that another one waits to send it.
-/

namespace SyncKernel

open Board

/-- The arguments of a receive are valid: its timeout is not zero, and its buffer, if it has one, is
writable user memory. -/
def Process.MayReceive (p : Process) (m : Memory) (buffer capacity : UInt64)
    (timeout : Option Millis) : Prop :=
  timeout ≠ some 0 ∧ (capacity = 0 ∨ buffer.toNat < userLimit ∧
    m.userCheck p.space buffer capacity.toNat .toWrite = .ok ())

instance (p : Process) (m : Memory) (buffer capacity : UInt64) (timeout : Option Millis) :
    Decidable (p.MayReceive m buffer capacity timeout) :=
  inferInstanceAs (Decidable (_ ≠ _ ∧ (_ ∨ _ ∧ _)))

/-- The buffer of a receive passes its check exactly if the arguments are valid. -/
theorem Process.mayReceive_iff {p : Process} {m : Memory} {buffer capacity : UInt64}
    {timeout : Option Millis} (ht : timeout ≠ some 0) :
    p.MayReceive m buffer capacity timeout ↔
      (if capacity = 0 then (.ok () : Except Errno Unit)
        else if userLimit ≤ buffer.toNat then .error .invalidArgument
        else m.userCheck p.space buffer capacity.toNat .toWrite) = .ok () := by
  unfold MayReceive
  by_cases hc : capacity = 0
  · simp [hc, ht]
  · by_cases hb : userLimit ≤ buffer.toNat
    · simp [hc, hb, Nat.not_lt.2 hb]
    · simp [hc, hb, Nat.lt_of_not_le hb, ht]

/-- The buffer of a valid receive is no longer than user memory. -/
theorem Process.MayReceive.capacity_le {p : Process} {m : Memory} {buffer capacity : UInt64}
    {timeout : Option Millis} (h : p.MayReceive m buffer capacity timeout) :
    capacity.toNat ≤ userLimit := by
  obtain ⟨-, rfl | ⟨-, hcheck⟩⟩ := h
  · exact Nat.zero_le _
  · obtain ⟨hstop, -⟩ := Memory.check_eq_ok.1 hcheck
    omega

/-- What is copied of a payload fits in the buffer of the receiver. -/
theorem Process.portion_le (r : Process) (msg : Message) :
    (r.portion msg).toNat ≤ r.receive.capacity.toNat := by
  unfold Process.portion min instMinUInt64 minOfLe
  dsimp only
  split
  · next hle => exact UInt64.le_iff_toNat_le.1 hle
  · exact Nat.le_refl _

/-- What is copied of a payload to a buffer within user memory is not too long. -/
theorem Process.portion_le_bufferLimit {r : Process} (hroom : r.receive.capacity.toNat ≤ userLimit)
    (msg : Message) : (r.portion msg).toNat ≤ bufferLimit := by
  have hle := r.portion_le msg
  have hlimit : userLimit ≤ bufferLimit := by decide
  omega

/-- The test of a receive finds the processes that wait to send to its caller. -/
theorem Process.sendsTo_iff {p : Process} {target : Pid} :
    Population.waitsToSendTo target p = true ↔ p.SendsTo target := by
  simp [Population.waitsToSendTo, SendsTo, and_assoc]

/-- The first record of a table with a property is in the lowest slot of those with it. -/
theorem ProcessTable.find?_processes {t : ProcessTable} {f : Process → Bool} {p : Process}
    (h : t.processes.find? f = some p) :
    ∃ i, t.at? i = some p ∧ f p = true ∧ ∀ j, j < i → ∀ q, t.at? j = some q → f q = false := by
  rw [processes, List.find?_filterMap, Option.bind_eq_some_iff] at h
  obtain ⟨i, hi, hp⟩ := h
  obtain ⟨hany, n, hn, rfl, hbefore⟩ := List.find?_eq_some_iff_getElem.1 hi
  refine ⟨_, hp, ?_, fun j hj q hq => ?_⟩
  · rw [hp] at hany
    exact hany
  · have hjn : (j : Nat) < n := by
      rw [List.getElem_finRange] at hj
      exact hj
    simpa [hq] using hbefore j hjn

/-- A search in the table is not changed by the exchange of a record, if it is about neither. -/
theorem ProcessTable.find?_put {t : ProcessTable} {f : Process → Bool} {p q : Process}
    (hp : t.at? p.pid.slot = some p) (hpid : q.pid = p.pid) (hf : f p = false) (hf' : f q = false) :
    (t.put q).processes.find? f = t.processes.find? f := by
  have hany : ∀ i, ((t.put q).at? i).any f = (t.at? i).any f := by
    intro i
    by_cases hi : q.pid.slot = i
    · subst hi
      rw [at?_put_self, hpid, hp, Option.any_some, Option.any_some, hf, hf']
    · rw [at?_put_of_ne hi]
  simp only [processes, List.find?_filterMap, hany]
  cases hfind : (List.finRange slotCount).find? fun i => (t.at? i).any f with
  | none => rfl
  | some i =>
    have hi : q.pid.slot ≠ i := by
      rintro rfl
      have hsome := List.find?_some hfind
      rw [hpid, hp, Option.any_some, hf] at hsome
      cases hsome
    exact at?_put_of_ne hi

namespace Population

variable {w w' : Population} {p s r : Process} {pid target : Pid} {msg : Message}

/-- Copying a payload stops exactly if what is to be copied is too long for any buffer. -/
theorem copyPayload_eq_error {fault : Fault} : w.copyPayload s r msg = .error fault ↔
    fault = .bufferTooLong ∧ bufferLimit < (r.portion msg).toNat := by
  unfold copyPayload
  dsimp only
  split
  · next h0 => simp [h0]
  split
  · next hlong => simp [hlong, eq_comm]
  · next hshort => split <;> simp [hshort]

/-- A payload for which there is a buffer is copied or dropped. -/
theorem exists_copyPayload (short : (r.portion msg).toNat ≤ bufferLimit) (w : Population)
    (s : Process) : ∃ payload m', w.copyPayload s r msg = .ok (payload, m') := by
  cases h : w.copyPayload s r msg with
  | ok copied => exact ⟨copied.1, copied.2, rfl⟩
  | error fault => exact absurd (copyPayload_eq_error.1 h).2 (Nat.not_lt.2 short)

/-- A process that waits for a message is handed one, whatever became of its payload. -/
theorem complete_of_copyPayload (wait : r.Receives) {payload : Payload} {m' : Memory}
    (h : w.copyPayload s r msg = .ok (payload, m')) :
    ∃ size perm w', w.complete s r msg = .ok w' ∧ w'.memory = m' ∧
      w'.procs = w.procs.put (r.handed s.pid msg.value size perm) ∧
      (∀ n, payload = .copied n → size = n ∧ perm = msg.perm) ∧
      ((∀ n, payload ≠ .copied n) → size = 0 ∧ perm = 0) := by
  have hwake : ∀ receive, ({ r with receive } : Process).wake msg.value =
      .ok { r with receive, frame := r.frame.setReturn msg.value, status := .runnable } :=
    fun receive => Process.wake_of_blocked (p := { r with receive }) wait.1 _
  unfold complete
  rw [h]
  cases payload with
  | copied n =>
    simp only [hwake, bind, Except.bind, pure, Except.pure]
    refine ⟨n, msg.perm, _, rfl, rfl, rfl, fun n' hn => ?_, fun hne => absurd rfl (hne n)⟩
    cases hn
    exact ⟨rfl, rfl⟩
  | absent | dropped e =>
    simp only [hwake, bind, Except.bind, pure, Except.pure]
    exact ⟨0, 0, _, rfl, rfl, rfl, nofun, fun _ => ⟨rfl, rfl⟩⟩

/-- Handing a message to a process that waits for one stops as copying its payload does. -/
theorem complete_eq_error (wait : r.Receives) {fault : Fault} :
    w.complete s r msg = .error fault ↔ w.copyPayload s r msg = .error fault := by
  cases h : w.copyPayload s r msg with
  | ok copied =>
    obtain ⟨payload, m'⟩ := copied
    obtain ⟨_, _, _, hc, -⟩ := complete_of_copyPayload wait h
    simp [hc]
  | error => simp [complete, h, bind, Except.bind]

/-- A process that waits for a message and gets one is handed it. -/
theorem complete_eq_ok (wait : r.Receives) (h : w.complete s r msg = .ok w') :
    ∃ size perm, w'.procs = w.procs.put (r.handed s.pid msg.value size perm) := by
  cases hcopy : w.copyPayload s r msg with
  | ok copied =>
    obtain ⟨payload, m'⟩ := copied
    obtain ⟨size, perm, w₁, hc, -, hprocs, -⟩ := complete_of_copyPayload wait hcopy
    cases h.symm.trans hc
    exact ⟨size, perm, hprocs⟩
  | error fault => cases h.symm.trans ((complete_eq_error wait).2 hcopy)

/-- A process that waits for a message with a buffer within user memory is handed any. -/
theorem complete_ok (wait : r.Receives) (hroom : r.receive.capacity.toNat ≤ userLimit)
    (msg : Message) :
    ∃ size perm w', w.complete s r msg = .ok w' ∧
      w'.procs = w.procs.put (r.handed s.pid msg.value size perm) := by
  obtain ⟨payload, m', hcopy⟩ := exists_copyPayload (Process.portion_le_bufferLimit hroom msg) w s
  obtain ⟨size, perm, w', hc, -, hprocs, -⟩ := complete_of_copyPayload wait hcopy
  exact ⟨size, perm, w', hc, hprocs⟩

/-- What an attempt to pass a message comes to: it depends on whether the target is there and
waits for a message. The sender has to be there; if it sends to itself, it does not wait. -/
theorem attempt_cases (bounded : w.procs.Bounded) (target : Pid) (msg : Message)
    (hs : w.procs.at? s.pid.slot = some s)
    (hself : s.pid.slot = target.slot → ¬ s.Receives) :
    ((∀ r, w.procs.lookup target ≠ .ok r) ∧ w.attempt s.pid target msg = .ok (.targetGone, w)) ∨
    ∃ r, w.procs.lookup target = .ok r ∧
      ((¬ r.Receives ∧ w.attempt s.pid target msg = .ok (.notReady, w)) ∨
        ∃ size perm w', s.pid.slot ≠ target.slot ∧ r.Receives ∧
          w.attempt s.pid target msg = .ok (.delivered, w') ∧
          w'.procs = w.procs.put (r.handed s.pid msg.value size perm)) := by
  unfold attempt
  cases hl : w.procs.lookup target with
  | error e => exact .inl ⟨fun r hr => by simp at hr, rfl⟩
  | ok r =>
    refine .inr ⟨r, rfl, ?_⟩
    have hget : w.procs.get? target = some r := (ProcessTable.lookup_eq_ok.1 hl).1
    by_cases hslot : s.pid.slot = target.slot
    · have hr : s = r := by
        have hat := (ProcessTable.get?_eq_some.1 hget).1
        rw [← hslot, hs] at hat
        exact Option.some.inj hat
      rw [if_pos hslot]
      exact .inl ⟨hr ▸ hself hslot, rfl⟩
    · rw [if_neg hslot, ProcessTable.pair?_eq_some.2 ⟨hslot, ProcessTable.get?_pid hs, hget⟩]
      dsimp only
      split
      · next hrcv =>
        have hrcv : r.Receives := by simpa [Process.Receives, and_comm] using hrcv
        have hroom := bounded _ r (ProcessTable.get?_eq_some.1 hget).1 hrcv
        obtain ⟨size, perm, w', hc, hprocs⟩ := complete_ok (w := w) (s := s) hrcv hroom msg
        rw [hc]
        exact .inr ⟨size, perm, w', hslot, hrcv, rfl, hprocs⟩
      · next hrcv =>
        refine .inl ⟨fun h => hrcv ?_, rfl⟩
        simpa [Process.Receives, and_comm] using h

/-- A message passes to a process that waits for one. -/
theorem attempt_delivers (bounded : w.procs.Bounded) (msg : Message)
    (hs : w.procs.at? s.pid.slot = some s)
    (hr : w.procs.at? r.pid.slot = some r) (wait : r.Receives) (hne : s.pid.slot ≠ r.pid.slot) :
    ∃ size perm w', w.attempt s.pid r.pid msg = .ok (.delivered, w') ∧
      w'.procs = w.procs.put (r.handed s.pid msg.value size perm) := by
  have hlook : w.procs.lookup r.pid = .ok r := ProcessTable.lookup_of_live hr (by simp [wait.1])
  obtain ⟨hgone, -⟩ | ⟨q, hq, hcases⟩ := attempt_cases bounded r.pid msg hs fun he => absurd he hne
  · exact absurd hlook (hgone r)
  cases hlook.symm.trans hq
  obtain ⟨hbusy, -⟩ | ⟨size, perm, w', -, -, ha, hprocs⟩ := hcases
  · exact absurd wait hbusy
  · exact ⟨size, perm, w', ha, hprocs⟩

/-! ## Sending -/

section
variable {b : Board} (h : b.Sound) (hp : b.procs.at? p.pid.slot = some p)
  (run : p.status = .running) (hw : b.procs = w.procs)
include h hp run hw

/-- A send that does not wait passes the message or changes nothing. -/
theorem trySend_ends (target : Pid) (msg : Message) :
    ∃ a w', w.trySend p.pid target msg = .ok (a, w') ∧
      ((∃ e, a = .error e ∧ w' = w) ∨
        (a = .ok () ∧ Pass p.pid target msg.value b { b with procs := w'.procs })) := by
  have hself : ¬ p.Receives := Process.not_receives_of_ne (by simp [run])
  have hlook : w.procs.lookup p.pid = .ok p :=
    hw ▸ ProcessTable.lookup_of_live hp (by simp [run])
  unfold trySend
  rw [hlook]
  dsimp only
  cases p.checkPayload w.memory msg with
  | error e => exact ⟨_, _, rfl, .inl ⟨e, rfl, rfl⟩⟩
  | ok =>
    dsimp only
    obtain ⟨-, ha⟩ | ⟨r, hr, ⟨-, ha⟩ | ⟨size, perm, w', -, hrcv, ha, hprocs⟩⟩ :=
      attempt_cases (hw ▸ h.table.bounded) target msg (hw ▸ hp) fun _ => hself
    · rw [ha]
      exact ⟨_, _, rfl, .inl ⟨_, rfl, rfl⟩⟩
    · rw [ha]
      exact ⟨_, _, rfl, .inl ⟨_, rfl, rfl⟩⟩
    · rw [ha]
      obtain ⟨hat, hpid⟩ := ProcessTable.get?_eq_some.1 (ProcessTable.lookup_eq_ok.1 hr).1
      refine ⟨_, _, rfl, .inr ⟨rfl, ?_⟩⟩
      rw [hprocs, ← hw]
      rw [← hw, ← hpid] at hat
      exact .send hp run hat hrcv rfl hpid size perm

/-- A send that may wait passes the message, blocks its caller, or changes nothing. -/
theorem sendTimeout_ends (target : Pid) (msg : Message) (timeout now : Millis) :
    ∃ a w', w.sendTimeout p.pid target msg timeout now = .ok (a, w') ∧
      ((∃ e, a = .error e ∧ w' = w) ∨
        (a = .ok (.done 0) ∧ Pass p.pid target msg.value b { b with procs := w'.procs }) ∨
        (a = .ok .blocked ∧
          Ask now p.pid (some (target, msg)) b { b with procs := w'.procs })) := by
  have hself : ¬ p.Receives := Process.not_receives_of_ne (by simp [run])
  have hlook : w.procs.lookup p.pid = .ok p :=
    hw ▸ ProcessTable.lookup_of_live hp (by simp [run])
  unfold sendTimeout
  split
  · exact ⟨_, _, rfl, .inl ⟨_, rfl, rfl⟩⟩
  rw [hlook]
  dsimp only
  cases p.checkPayload w.memory msg with
  | error e => exact ⟨_, _, rfl, .inl ⟨e, rfl, rfl⟩⟩
  | ok =>
    dsimp only
    obtain ⟨-, ha⟩ | ⟨r, hr, ⟨hbusy, ha⟩ | ⟨size, perm, w', -, hrcv, ha, hprocs⟩⟩ :=
      attempt_cases (hw ▸ h.table.bounded) target msg (hw ▸ hp) fun _ => hself
    · rw [ha]
      exact ⟨_, _, rfl, .inl ⟨_, rfl, rfl⟩⟩
    · rw [ha]
      simp only [bind, Except.bind, hlook]
      refine ⟨_, _, rfl, .inr (.inr ⟨rfl, ?_⟩)⟩
      have hask : Ask now p.pid _ b _ := .send hp rfl run target msg timeout (hw ▸ hr) hbusy
      rw [Board.put, hw] at hask
      exact hask
    · rw [ha]
      obtain ⟨hat, hpid⟩ := ProcessTable.get?_eq_some.1 (ProcessTable.lookup_eq_ok.1 hr).1
      refine ⟨_, _, rfl, .inr (.inl ⟨rfl, ?_⟩)⟩
      rw [hprocs, ← hw]
      rw [← hw, ← hpid] at hat
      exact .send hp run hat hrcv rfl hpid size perm

/-! ## Receiving -/

omit h hw in
/-- When the caller `p` of a receive has become `p₁`, which waits for a message, that of the waiting
process `s` passes to it and `s` is finished with 0. The caller has its message then, and replaces
its record again when it runs on. -/
theorem fetch_ends {w₁ : Population} {p₁ : Process} (bounded : w₁.procs.Bounded)
    (hprocs₁ : w₁.procs = b.procs.put p₁) (hpid₁ : p₁.pid = p.pid) (wait₁ : p₁.Receives)
    (hs : b.procs.at? s.pid.slot = some s) (hsnd : s.SendsTo p.pid) :
    ∃ size perm w₂, w₁.attempt s.pid p.pid s.send.message = .ok (.delivered, w₂) ∧
      w₂.procs.get? s.pid = some s ∧
      (w₂.put (s.unsent 0)).procs.lookup p.pid =
        .ok (p₁.handed s.pid s.send.message.value size perm) ∧
      ∀ q : Process, q.pid = p.pid →
        (w₂.put (s.unsent 0)).procs.put q = (b.procs.put (s.unsent 0)).put q := by
  have hne : s.pid.slot ≠ p.pid.slot := ProcessTable.slot_ne hs hp (by simp [hsnd.1, run])
  have hs₁ : w₁.procs.at? s.pid.slot = some s := by
    rw [hprocs₁, ProcessTable.at?_put_of_ne (hpid₁ ▸ hne.symm), hs]
  have hat₁ : w₁.procs.at? p₁.pid.slot = some p₁ := by
    rw [hprocs₁]
    exact ProcessTable.at?_put_self
  obtain ⟨size, perm, w₂, ha, hprocs₂⟩ :=
    attempt_delivers bounded s.send.message hs₁ hat₁ wait₁ (hpid₁ ▸ hne)
  rw [hpid₁] at ha
  refine ⟨size, perm, w₂, ha, ?_⟩
  generalize hg : p₁.handed s.pid s.send.message.value size perm = g at hprocs₂
  have hpidg : g.pid = p.pid := by subst hg; exact hpid₁
  have hgs : g.pid.slot ≠ (s.unsent 0).pid.slot := hpidg ▸ hne.symm
  refine ⟨?_, ?_, fun q hq => ?_⟩
  · rw [hprocs₂, ProcessTable.get?_put_of_ne (hpidg ▸ hne.symm)]
    exact ProcessTable.get?_pid hs₁
  · rw [← hpidg]
    refine ProcessTable.lookup_of_live ?_ (by subst hg; exact nofun)
    rw [put, ProcessTable.at?_put_of_ne hgs.symm, hprocs₂]
    exact ProcessTable.at?_put_self
  · rw [put, hprocs₂, hprocs₁, ProcessTable.put_put (hpid₁.trans hpidg.symm),
      ProcessTable.put_comm hgs, ProcessTable.put_put (hpidg.trans hq.symm)]

/-- A receive whose arguments are valid takes the message of the waiting sender in the lowest slot,
or blocks its caller if nobody waits to send to it; any other is refused. -/
theorem receive_ends (buffer capacity : UInt64) (timeout : Option Millis)
    (now : Millis) :
    ∃ a w', w.receive p.pid buffer capacity timeout now = .ok (a, w') ∧
      ((∃ e, a = .error e ∧ w' = w ∧ ¬ p.MayReceive w.memory buffer capacity timeout) ∨
        (∃ sender value, a = .ok (.done value) ∧
          Pass sender p.pid value b { b with procs := w'.procs } ∧
          p.MayReceive w.memory buffer capacity timeout) ∨
        (a = .ok .blocked ∧ Ask now p.pid none b { b with procs := w'.procs } ∧
          p.MayReceive w.memory buffer capacity timeout)) := by
  have hlook : w.procs.lookup p.pid = .ok p :=
    hw ▸ ProcessTable.lookup_of_live hp (by simp [run])
  unfold receive
  split
  · next ht => exact ⟨_, _, rfl, .inl ⟨_, rfl, rfl, fun hv => hv.1 ht⟩⟩
  next ht =>
  rw [hlook]
  dsimp only
  split
  · next e he =>
    refine ⟨_, _, rfl, .inl ⟨e, rfl, rfl, fun hv => ?_⟩⟩
    cases he.symm.trans ((Process.mayReceive_iff ht).1 hv)
  next hok =>
  have hvalid := (Process.mayReceive_iff ht).2 hok
  -- the caller is blocked before a waiting sender is looked for, but it is not one itself
  generalize hp₁ : ({ p with
    receive := { receiving := true, deadline := timeout.map (deadlineAfter now), buffer, capacity }
    status := .blocked } : Process) = p₁
  have hpid₁ : p₁.pid = p.pid := by subst hp₁; rfl
  have wait₁ : p₁.Receives := by subst hp₁; exact ⟨rfl, rfl⟩
  have hno : waitsToSendTo p.pid p = false := by simp [waitsToSendTo, run]
  have hno₁ : waitsToSendTo p.pid p₁ = false := by
    have hs : p.send.sending = false := (h.settled hp).sending_eq_false (by simp [run])
    subst hp₁
    simp [waitsToSendTo, hs]
  have hprocs₁ : (w.put p₁).procs = b.procs.put p₁ := by rw [put, hw]
  have bounded₁ : (w.put p₁).procs.Bounded := by
    intro i q hq hr
    rw [hprocs₁] at hq
    rcases ProcessTable.at?_put_cases hq with ⟨-, rfl⟩ | ⟨-, hq⟩
    · subst hp₁
      exact hvalid.capacity_le
    · exact h.table.bounded i q hq hr
  generalize w.put p₁ = w₁ at hprocs₁ bounded₁
  rw [hprocs₁, ProcessTable.find?_put hp hpid₁ hno hno₁]
  split
  · next hnone =>
    have alone : ∀ i s, b.procs.at? i = some s → ¬ s.SendsTo p.pid := by
      intro i s hs hsnd
      have hns := List.find?_eq_none.1 hnone s (ProcessTable.mem_processes.2 ⟨i, hs⟩)
      exact hns (Process.sendsTo_iff.2 hsnd)
    refine ⟨_, _, rfl, .inr (.inr ⟨rfl, ?_, hvalid⟩)⟩
    have hask : Ask now p.pid none b _ :=
      .receive hp rfl run buffer capacity timeout hvalid.capacity_le alone
    rw [Board.put, hp₁, ← hprocs₁] at hask
    exact hask
  · next s hs =>
    obtain ⟨i, hi, hsnd, hfirst⟩ := ProcessTable.find?_processes hs
    have hsnd : s.SendsTo p.pid := Process.sendsTo_iff.1 hsnd
    obtain rfl : s.pid.slot = i := h.table.placed i s hi
    have hlow : ∀ i, i < s.pid.slot → ∀ q, b.procs.at? i = some q → ¬ q.SendsTo p.pid := by
      intro i hlt q hq hqs
      cases (hfirst i hlt q hq).symm.trans (Process.sendsTo_iff.2 hqs)
    obtain ⟨size, perm, w₂, ha, hget₂, hlook₃, hprocs₃⟩ :=
      fetch_ends hp run bounded₁ hprocs₁ hpid₁ wait₁ hi hsnd
    rw [ha]
    simp only [bind, Except.bind, pure, Except.pure, if_true, hget₂,
      Process.finishSend_of_blocked hsnd.1, Except.map, hlook₃]
    refine ⟨_, _, rfl, .inr (.inl ⟨s.pid, s.send.message.value, rfl, ?_, hvalid⟩)⟩
    have hprocs' := hprocs₃
      { p₁.handed s.pid s.send.message.value size perm with status := p.status } hpid₁
    rw [put]
    dsimp only
    rw [hprocs', run]
    subst hp₁
    exact .fetch hp run hi hsnd hlow rfl rfl rfl buffer capacity size perm

end

end Population

end SyncKernel
