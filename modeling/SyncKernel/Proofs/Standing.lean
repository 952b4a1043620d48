import SyncKernel.Futex.Robust
import SyncKernel.Message.Transfer
import SyncKernel.Proofs.UserMemory
import SyncKernel.Signal.Delivery
import SyncKernel.Signal.Send

/-!
# The standing of a process

Why a process is blocked is spread over its record: a futex address, a flag of the receiving side,
one of the sending side, and a wait for a signal. `Process.Settled` says that they agree with the
status: a blocked process has exactly one reason to be (`Settled.existsUnique`), any other process
has none (`Settled.waits_eq_false`). The functions on records are then split by what they do to the
standing. Those that a process applies to itself while it runs leave it (`Process.Own`,
`Own.sameStanding`). Those that end a blocked call clear the one reason there was
(`Settled.expired`, `Settled.unsent`, `Settled.handed`), and they do not stop where the process is
blocked (`expireReceive_of_blocked`, `finishSend_of_blocked`).

What a wait for a signal, an exchange of actions and a delivery do to a process at all is said once
(`awaitSignal_awaits`, `exchangeAction_cases`, `deliver_delivers`). The first two write their result
to user memory after they changed the record; they are not refused there, since the place was
checked before (`Memory.exists_userWrite`).
-/

namespace SyncKernel

/-! ## Pending signals -/

/-- A set without the kill signal does not contain it. -/
theorem SignalSet.contains_erase_kill (s : SignalSet) :
    (s.erase killSignal).contains killSignal = false := by
  have hkill : isSignal killSignal = true := by decide
  rw [contains_erase, hkill]
  simp

namespace SignalQueue

variable {q q' : SignalQueue} {e : PendingSignal} {test : Nat → Bool}

/-- A signal is in a queue exactly if an entry has its number. -/
theorem contains_eq_true {n : Nat} : q.contains n = true ↔ ∃ x ∈ q.entries, x.number = n := by
  simp [contains]

/-- A signal is put at the end of a queue exactly if there is room. -/
theorem push_eq_ok : q.push e = .ok q' ↔ q.isFull = false ∧ q' = ⟨q.entries ++ [e]⟩ := by
  unfold push
  split
  · next hfull => simp [hfull]
  · next hfull => simp [hfull, eq_comm]

/-- A signal is refused for want of memory, exactly if the queue is full. -/
theorem push_eq_error {errno : Errno} :
    q.push e = .error errno ↔ q.isFull = true ∧ errno = .outOfMemory := by
  unfold push
  split
  · next hfull => simp [hfull, eq_comm]
  · next hfull => simp [hfull]

/-- Taking a signal out of a queue takes the first one that satisfies the test. -/
theorem takeFirst_eq_some (h : q.takeFirst test = some (e, q')) :
    ∃ l₁ l₂, q.entries = l₁ ++ e :: l₂ ∧ q'.entries = l₁ ++ l₂ ∧ test e.number = true ∧
      ∀ x ∈ l₁, test x.number = false := by
  unfold takeFirst at h
  split at h
  · cases h
  next i hi =>
  obtain ⟨hlt, he, hbefore⟩ := List.findIdx?_eq_some_iff_getElem.1 hi
  rw [removeAt, List.getElem?_eq_getElem hlt] at h
  cases h
  refine ⟨q.entries.take i, q.entries.drop (i + 1), ?_, ?_, he, fun x hx => ?_⟩
  · rw [List.getElem_cons_drop, List.take_append_drop]
  · exact List.eraseIdx_eq_take_drop_succ ..
  · obtain ⟨j, hj, rfl⟩ := List.mem_take_iff_getElem.1 hx
    exact Bool.eq_false_iff.2 (hbefore j (by omega))

/-- If a signal satisfies the test and none can be taken, it is not in the queue. -/
theorem contains_eq_false_of_takeFirst {n : Nat} (h : q.takeFirst test = none)
    (hn : test n = true) : q.contains n = false := by
  unfold takeFirst at h
  split at h
  · next hi =>
    have hall := List.findIdx?_eq_none_iff.1 hi
    refine List.any_eq_false.2 fun e he hen => ?_
    have hen : e.number = n := by simpa using hen
    have hf := hall e he
    rw [hen, hn] at hf
    cases hf
  · next i hi =>
    obtain ⟨hlt, -⟩ := List.findIdx?_eq_some_iff_getElem.1 hi
    rw [removeAt, List.getElem?_eq_getElem hlt] at h
    cases h

/-- Taking a signal out of a queue leaves signals that were in it. -/
theorem mem_of_takeFirst (h : q.takeFirst test = some (e, q')) :
    e ∈ q.entries ∧ ∀ x ∈ q'.entries, x ∈ q.entries := by
  obtain ⟨l₁, l₂, hq, hq', -⟩ := takeFirst_eq_some h
  rw [hq, hq']
  refine ⟨List.mem_append_cons_self, fun x hx => ?_⟩
  rw [List.mem_append, List.mem_cons]
  exact (List.mem_append.1 hx).imp_right .inr

/-- No mask stops the kill signal. -/
theorem passes_kill (mask : SignalSet) : passes mask killSignal = true := by
  rw [passes, SignalSet.contains_erase_kill, Bool.not_false]

end SignalQueue

/-! ## Standing -/

/-- The reasons for which a process may be blocked. -/
inductive Reason where
  /-- It waits on a futex. -/
  | futex
  /-- It waits for a message. -/
  | receive
  /-- It waits to get rid of a message. -/
  | send
  /-- It waits for a signal. -/
  | signal
deriving DecidableEq, Repr

namespace Process

/-- Whether the record of a process carries a reason to be blocked. -/
def waits (p : Process) : Reason → Bool
  | .futex => p.futex.isSome
  | .receive => p.receive.receiving
  | .send => p.send.sending
  | .signal => p.signal.wait.isSome

/-- The number of reasons to be blocked that a record carries. -/
def reasonCount (p : Process) : Nat :=
  (p.waits .futex).toNat + (p.waits .receive).toNat + (p.waits .send).toNat +
    (p.waits .signal).toNat

/-- The record of a process is in order: it carries one reason to be blocked if the process is
blocked and none otherwise, its pending signals are signals, the processor it names exists, while it
waits for a message there is no sender of an earlier one in it and its buffer is no longer than user
memory, while it waits to send one it names the target, and while it waits on a futex its call is
going to answer 0. -/
structure Settled (p : Process) : Prop where
  reasons : p.reasonCount = if p.status = .blocked then 1 else 0
  signals : ∀ e ∈ p.signal.queue.entries, isSignal e.number = true
  cpu : ∀ c, p.cpu = some c → c < cpuCount
  sender : p.receive.receiving = true → p.receive.sender = none
  buffer : p.receive.receiving = true → p.receive.capacity.toNat ≤ userLimit
  target : p.send.sending = true → ∃ target, p.send.target = some target
  answer : p.futex.isSome = true → p.frame.get .a0 = 0

/-! ## Reasons to be blocked -/

section
variable {p p' : Process} {r r' : Reason}

/-- A reason to be blocked counts. -/
theorem waits_toNat_le : (p.waits r).toNat ≤ p.reasonCount := by
  unfold reasonCount
  cases r <;> omega

/-- If a record carries one reason only, two reasons it carries are the same. -/
theorem eq_of_waits (h : p.reasonCount = 1) (hr : p.waits r = true) (hr' : p.waits r' = true) :
    r = r' := by
  unfold reasonCount at h
  cases r <;> cases r' <;> first | rfl | (simp only [hr, hr', Bool.toNat_true] at h; omega)

/-- A record that carries some reason, and only one, carries exactly one. -/
theorem exists_waits (h : 0 < p.reasonCount) : ∃ r, p.waits r = true := by
  by_contra hne
  have h0 : ∀ r, p.waits r = false := fun r => Bool.eq_false_iff.2 fun hr => hne ⟨r, hr⟩
  simp [reasonCount, h0] at h

namespace Settled

/-- The record of a blocked process carries one reason to be. -/
theorem reasonCount_eq_one (h : p.Settled) (hb : p.status = .blocked) : p.reasonCount = 1 := by
  simpa [hb] using h.reasons

/-- The record of a process that is not blocked carries no reason to be. -/
theorem reasonCount_eq_zero (h : p.Settled) (hb : p.status ≠ .blocked) : p.reasonCount = 0 := by
  simpa [hb] using h.reasons

/-- A blocked process has exactly one reason to be blocked. -/
theorem existsUnique (h : p.Settled) (hb : p.status = .blocked) : ∃! r, p.waits r = true := by
  have h1 := h.reasonCount_eq_one hb
  have hpos : 0 < p.reasonCount := by omega
  obtain ⟨r, hr⟩ := exists_waits hpos
  exact ⟨r, hr, fun r' hr' => eq_of_waits h1 hr' hr⟩

/-- A process that is not blocked has no reason to be. -/
theorem waits_eq_false (h : p.Settled) (hb : p.status ≠ .blocked) (r : Reason) :
    p.waits r = false := by
  have h0 := h.reasonCount_eq_zero hb
  have hle : (p.waits r).toNat ≤ p.reasonCount := waits_toNat_le
  rw [h0] at hle
  simpa using hle

/-- A process with a reason to be blocked is blocked. -/
theorem blocked_of_waits (h : p.Settled) (hr : p.waits r = true) : p.status = .blocked := by
  by_contra hb
  rw [h.waits_eq_false hb r] at hr
  cases hr

/-- A process with one reason to be blocked has no other. -/
theorem waits_eq_false_of_ne (h : p.Settled) (hr : p.waits r = true) (hne : r ≠ r') :
    p.waits r' = false :=
  Bool.eq_false_iff.2 fun hr' =>
    hne (eq_of_waits (h.reasonCount_eq_one (h.blocked_of_waits hr)) hr hr')

end Settled

end

/-! ## What a running process does to itself -/

/-- `p'` differs from `p` at most in its registers, its list of locks and its signal state, waits
for the same signal if any, and has no pending signal that `p` has not. -/
structure SameStanding (p p' : Process) : Prop where
  pid : p'.pid = p.pid
  status : p'.status = p.status
  cpu : p'.cpu = p.cpu
  receive : p'.receive = p.receive
  send : p'.send = p.send
  futex : p'.futex = p.futex
  runs : p'.runs = p.runs
  wait : p'.signal.wait = p.signal.wait
  pending : ∀ e ∈ p'.signal.queue.entries, e ∈ p.signal.queue.entries

/-- The changes that a process brings about in its own record while it runs: user code changes
registers, and the system calls and returns to user code that do not block it set a result, register
a list of locks or an entry, exchange an action, take a pending signal, enter a handler or leave
one. -/
inductive Own (p : Process) : Process → Prop where
  | answer (v : UInt64) : Own p { p with frame := p.frame.setReturn v }
  | user (frame : TrapFrame) (h : frame.get .status = p.frame.get .status) : Own p { p with frame }
  | robust {p' : Process} {m : Memory} {head length : UInt64}
      (h : p.setRobustList m head length = .ok p') : Own p p'
  | entry {p' : Process} {m : Memory} {address : UInt64}
      (h : p.registerEntry m address = .ok p') : Own p p'
  | action {p' : Process} {m m' : Memory} {n : Nat} {new old : UInt64} {a : Except Errno Unit}
      (h : p.exchangeAction m n new old = (a, p', m')) : Own p p'
  | take {p' : Process} {m m' : Memory} {accept : SignalSet} {destination : UInt64}
      {a : Except Errno (Option Nat)} (h : p.awaitSignal m accept destination = (a, p', m'))
      (ha : a ≠ .ok none) : Own p p'
  | deliver {p' : Process} {m m' : Memory} {d : Delivery} (h : p.deliver m = .ok (d, p', m')) :
      Own p p'
  | leave {p' : Process} {m : Memory} {address : UInt64} (h : p.leaveHandler m address = .ok p') :
      Own p p'

section
variable {p p' : Process} {m m' : Memory}

theorem SameStanding.refl (p : Process) : SameStanding p p :=
  ⟨rfl, rfl, rfl, rfl, rfl, rfl, rfl, rfl, fun _ h => h⟩

theorem SameStanding.trans {q : Process} (h : SameStanding p q) (h' : SameStanding q p') :
    SameStanding p p' where
  pid := h'.pid.trans h.pid
  status := h'.status.trans h.status
  cpu := h'.cpu.trans h.cpu
  receive := h'.receive.trans h.receive
  send := h'.send.trans h.send
  futex := h'.futex.trans h.futex
  runs := h'.runs.trans h.runs
  wait := h'.wait.trans h.wait
  pending e he := h.pending e (h'.pending e he)

/-- Registers, list of locks and signal state may be replaced, if the wait for a signal stays and
no pending signal is new. -/
theorem SameStanding.of_signal (frame : TrapFrame) (robust : Option RobustList)
    {signal : SignalState} (hw : signal.wait = p.signal.wait)
    (hq : ∀ e ∈ signal.queue.entries, e ∈ p.signal.queue.entries) :
    SameStanding p { p with frame, robust, signal } :=
  ⟨rfl, rfl, rfl, rfl, rfl, rfl, rfl, hw, hq⟩

/-- A record of the same standing carries the same reasons to be blocked. -/
theorem SameStanding.waits (h : SameStanding p p') (r : Reason) : p'.waits r = p.waits r := by
  cases r with
  | futex => rw [Process.waits, h.futex]; rfl
  | receive => rw [Process.waits, h.receive]; rfl
  | send => rw [Process.waits, h.send]; rfl
  | signal => rw [Process.waits, h.wait]; rfl

/-- A process that is not blocked stays in order as long as its standing is the same. -/
theorem SameStanding.settled (h : SameStanding p p') (hp : p.Settled) (hb : p.status ≠ .blocked) :
    p'.Settled where
  reasons := by
    have hcount : p'.reasonCount = p.reasonCount := by simp only [reasonCount, h.waits]
    rw [hcount, h.status, hp.reasons]
  signals e he := hp.signals e (h.pending e he)
  cpu c hc := hp.cpu c (h.cpu ▸ hc)
  sender hr := by
    rw [h.receive] at hr ⊢
    exact hp.sender hr
  buffer hr := by
    rw [h.receive] at hr ⊢
    exact hp.buffer hr
  target hs := by
    rw [h.send] at hs ⊢
    exact hp.target hs
  answer hf := by
    have hnone : p'.waits .futex = false := by rw [h.waits, hp.waits_eq_false hb]
    exact absurd hf (by simpa [Process.waits] using hnone)

/-- Registering a list of locks leaves the standing. -/
theorem setRobustList_sameStanding {head length : UInt64}
    (h : p.setRobustList m head length = .ok p') : SameStanding p p' := by
  unfold setRobustList at h
  split at h
  · cases h
    exact .of_signal _ _ rfl fun _ he => he
  · split at h
    · cases h
    · split at h
      · cases h
      · cases h
        exact .of_signal _ _ rfl fun _ he => he

/-- Registering an entry sets the entry. -/
theorem registerEntry_eq_ok {address : UInt64} (h : p.registerEntry m address = .ok p') :
    ∃ entry, p' = { p with signal := { p.signal with entry } } := by
  unfold registerEntry at h
  split at h
  · cases h
    exact ⟨none, rfl⟩
  · split at h
    · cases h
    · cases h
      exact ⟨some address, rfl⟩

/-- Registering an entry leaves the standing. -/
theorem registerEntry_sameStanding {address : UInt64}
    (h : p.registerEntry m address = .ok p') : SameStanding p p' := by
  obtain ⟨entry, rfl⟩ := registerEntry_eq_ok h
  exact .of_signal _ _ rfl fun _ he => he

/-- Replacing an action leaves the wait and the pending signals. -/
theorem setAction_wait_queue (s : SignalState) (n : Nat) (a : Action) :
    (s.setAction n a).wait = s.wait ∧ (s.setAction n a).queue = s.queue := by
  unfold SignalState.setAction
  split <;> exact ⟨rfl, rfl⟩

/-- A change of an action answers the action from before it and sets the new one, if there is one.
-/
theorem changeAction_eq_ok_iff {n : Nat} {new : Option Action} {old : Action} :
    p.changeAction n new = .ok (old, p') ↔ n ≠ killSignal ∧ p.signal.action? n = .ok old ∧
      p' = new.elim p fun a => { p with signal := p.signal.setAction n a } := by
  unfold changeAction
  by_cases hn : n = killSignal
  · simp [hn]
  · cases p.signal.action? n with
    | error => simp [hn]
    | ok before => cases new <;> simp [hn, eq_comm]

/-- A change of an action sets the action at most, and not that for the kill signal. -/
theorem changeAction_eq_ok {n : Nat} {new : Option Action} {old : Action}
    (h : p.changeAction n new = .ok (old, p')) :
    p' = p ∨ n ≠ killSignal ∧ ∃ a, p' = { p with signal := p.signal.setAction n a } := by
  obtain ⟨hn, -, rfl⟩ := changeAction_eq_ok_iff.1 h
  cases new with
  | none => exact .inl rfl
  | some a => exact .inr ⟨hn, a, rfl⟩

/-- What an exchange of the action for a signal comes to if it is not refused: the action `wanted`,
if there is one, is read at `new` and takes the place of the action `before`, of which the record is
written at `old`. -/
structure Exchanges (p : Process) (m : Memory) (n : Nat) (new old : UInt64) (wanted : Option Action)
    (before : Action) (p' : Process) (m' : Memory) : Prop where
  changed : p.changeAction n wanted = .ok (before, p')
  unread : new = 0 → wanted = none
  read : new ≠ 0 → ∃ bytes a, m.userRead p.space new ActionRecord.byteSize = .ok bytes ∧
    Action.ofRecord? (.ofBytes bytes) = .ok a ∧ wanted = some a
  unwritten : old = 0 → m' = m
  written : old ≠ 0 → m.userWrite p.space old before.toRecord.toBytes = .ok m'

/-- The action that an exchange asks for: that of the record, or none if its address is 0. -/
def wantedAction (p : Process) (m : Memory) (new : UInt64) : Except Errno (Option Action) :=
  if new = 0 then .ok none
  else match m.userRead p.space new ActionRecord.byteSize with
    | .error e => .error e
    | .ok bytes => (Action.ofRecord? (.ofBytes bytes)).map some

/-- An exchange asks for no action if its address is 0, and otherwise for that of a valid record
there. -/
theorem wantedAction_eq_ok {new : UInt64} {wanted : Option Action} :
    p.wantedAction m new = .ok wanted ↔ (new = 0 → wanted = none) ∧
      (new ≠ 0 → ∃ bytes a, m.userRead p.space new ActionRecord.byteSize = .ok bytes ∧
        Action.ofRecord? (.ofBytes bytes) = .ok a ∧ wanted = some a) := by
  unfold wantedAction
  split
  · next h0 => simp [h0, eq_comm]
  next h0 =>
  cases m.userRead p.space new ActionRecord.byteSize with
  | error e => simp [h0]
  | ok bytes =>
    cases ha : Action.ofRecord? (.ofBytes bytes) with
    | error e => simp [h0, ha, Except.map]
    | ok a => simp [h0, ha, Except.map, eq_comm]

/-- An exchange of actions that is refused changes nothing: the place of the old action was checked
before the new one was set. Otherwise the action is changed. -/
theorem exchangeAction_cases {n : Nat} {new old : UInt64} {a : Except Errno Unit}
    (h : p.exchangeAction m n new old = (a, p', m')) :
    (∃ e, a = .error e ∧ p' = p ∧ m' = m) ∨
      a = .ok () ∧ ∃ wanted before, p.Exchanges m n new old wanted before p' m' := by
  unfold exchangeAction at h
  dsimp only at h
  split at h
  · cases h
    exact .inl ⟨_, rfl, rfl, rfl⟩
  next wanted hwanted =>
  obtain ⟨unread, read⟩ := wantedAction_eq_ok.1 hwanted
  split at h
  · cases h
    exact .inl ⟨_, rfl, rfl, rfl⟩
  next hroom =>
  split at h
  · cases h
    exact .inl ⟨_, rfl, rfl, rfl⟩
  next before q hc =>
  split at h
  · next hold =>
    cases h
    exact .inr ⟨rfl, _, _, hc, unread, read, fun _ => rfl, absurd hold⟩
  next hold =>
  have hspace : q.space = p.space := by
    rcases changeAction_eq_ok hc with rfl | ⟨-, _, rfl⟩ <;> rfl
  have hlength : before.toRecord.toBytes.length = ActionRecord.byteSize := by
    simp [ActionRecord.toBytes, word64Bytes, word32Bytes]
  rw [if_neg hold, ← hlength, ← hspace] at hroom
  obtain ⟨m₁, hwrite⟩ := Memory.exists_userWrite hroom
  rw [hwrite] at h
  cases h
  exact .inr ⟨rfl, _, _, hc, unread, read, fun h0 => absurd h0 hold, fun _ => hspace ▸ hwrite⟩

/-- Exchanging an action leaves the standing. -/
theorem exchangeAction_sameStanding {n : Nat} {new old : UInt64} {a : Except Errno Unit}
    (h : p.exchangeAction m n new old = (a, p', m')) : SameStanding p p' := by
  obtain ⟨_, _, rfl, _⟩ | ⟨_, _, _, hx⟩ := exchangeAction_cases h
  · exact .refl _
  rcases changeAction_eq_ok hx.changed with rfl | ⟨-, a, rfl⟩
  · exact .refl _
  · obtain ⟨hw, hq⟩ := setAction_wait_queue p.signal n a
    exact .of_signal _ _ hw fun e he => hq ▸ he

/-- What a call to wait for a signal does to a process and the memory. -/
inductive Awaits (p : Process) (m : Memory) (accept : SignalSet) (destination : UInt64) :
    Except Errno (Option Nat) → Process → Memory → Prop where
  /-- Nothing. -/
  | refused {e : Errno} : Awaits p m accept destination (.error e) p m
  /-- A pending signal is taken. -/
  | taken {e : PendingSignal} {queue : SignalQueue} {m' : Memory}
      (ht : p.signal.queue.takeFirst (accept.erase killSignal).contains = some (e, queue)) :
      Awaits p m accept destination (.ok (some e.number))
        { p with signal := { p.signal with queue } } m'
  /-- The process begins to wait. -/
  | waits (hk : p.signal.queue.contains killSignal = false) :
      Awaits p m accept destination (.ok none)
        { p with
          signal := { p.signal with
            wait := some ⟨accept.erase killSignal, p.signal.mask, destination⟩
            mask := p.signal.mask.difference (accept.erase killSignal) }
          status := .blocked } m

/-- A wait for a signal that is refused changes nothing: the place of the number was checked before
a signal was taken. -/
theorem awaitSignal_awaits {accept : SignalSet} {destination : UInt64}
    {a : Except Errno (Option Nat)} (h : p.awaitSignal m accept destination = (a, p', m')) :
    Awaits p m accept destination a p' m' := by
  unfold awaitSignal at h
  dsimp only at h
  split at h
  · cases h
    exact .refused
  split at h
  · cases h
    exact .refused
  next hcheck =>
  split at h
  · next e queue ht =>
    have hlength : (word32Bytes (UInt32.ofNat e.number)).length = 4 := by simp [word32Bytes]
    rw [← hlength] at hcheck
    obtain ⟨m₁, hwrite⟩ := Memory.exists_userWrite hcheck
    rw [Memory.userWrite32, hwrite] at h
    cases h
    exact .taken ht
  split at h
  · cases h
    exact .refused
  · next hk =>
    cases h
    exact .waits (Bool.eq_false_iff.2 hk)

/-- Taking a pending signal leaves the standing, as does a wait that is refused. -/
theorem awaitSignal_sameStanding {accept : SignalSet} {destination : UInt64}
    {a : Except Errno (Option Nat)} (h : p.awaitSignal m accept destination = (a, p', m'))
    (ha : a ≠ .ok none) : SameStanding p p' := by
  cases awaitSignal_awaits h with
  | refused => exact .refl p
  | taken ht => exact .of_signal _ _ rfl (SignalQueue.mem_of_takeFirst ht).2
  | waits => exact absurd rfl ha

/-- Calling a handler sets registers, but not the status register, the mask, and at most the action
for the signal. -/
theorem enterHandler_eq_ok {entry handler address : UInt64} {e : PendingSignal} {a : Action}
    (h : p.enterHandler m entry handler e a = .ok (p', m', address)) :
    ∃ frame signal, p' = { p with frame, signal } ∧
      frame.get .status = p.frame.get .status ∧
      (signal = { p.signal with mask := handlerMask p.signal.mask a e.number } ∨
        signal = SignalState.setAction
          { p.signal with mask := handlerMask p.signal.mask a e.number } e.number .standard) := by
  unfold enterHandler at h
  dsimp only at h
  split at h
  · cases h
  split at h
  · cases h
  cases h
  refine ⟨_, _, rfl, by simp [TrapFrame.get_set], ?_⟩
  split
  · exact .inr rfl
  · exact .inl rfl

/-- Calling a handler leaves the standing. -/
theorem enterHandler_sameStanding {entry handler address : UInt64} {e : PendingSignal} {a : Action}
    (h : p.enterHandler m entry handler e a = .ok (p', m', address)) : SameStanding p p' := by
  obtain ⟨frame, signal, rfl, -, rfl | rfl⟩ := enterHandler_eq_ok h
  · exact .of_signal _ _ rfl fun _ he => he
  · obtain ⟨hw, hq⟩ := setAction_wait_queue
      { p.signal with mask := handlerMask p.signal.mask a e.number } e.number .standard
    exact .of_signal _ _ hw fun x hx => hq ▸ hx

/-- Calling a handler leaves the pending signals. -/
theorem enterHandler_queue {entry handler address : UInt64} {e : PendingSignal} {a : Action}
    (h : p.enterHandler m entry handler e a = .ok (p', m', address)) :
    p'.signal.queue = p.signal.queue := by
  obtain ⟨frame, signal, rfl, -, rfl | rfl⟩ := enterHandler_eq_ok h
  · rfl
  · exact (setAction_wait_queue _ _ _).2

/-- Leaving a handler sets the registers, to go back to user code, and the mask, without the kill
signal. -/
theorem leaveHandler_eq_ok {address : UInt64} (h : p.leaveHandler m address = .ok p') :
    ∃ (context : TrapFrame) (mask : SignalSet), p' = { p with
      frame := context.forceUser
      signal := { p.signal with mask := mask.erase killSignal } } := by
  unfold leaveHandler at h
  split at h
  · cases h
  split at h
  · cases h
  · cases h
    exact ⟨_, _, rfl⟩

/-- Leaving a handler leaves the standing. -/
theorem leaveHandler_sameStanding {address : UInt64} (h : p.leaveHandler m address = .ok p') :
    SameStanding p p' := by
  obtain ⟨context, mask, rfl⟩ := leaveHandler_eq_ok h
  exact .of_signal _ _ rfl fun _ he => he

/-- What a delivery does to a process and the memory. Whichever test says what may be taken, the
kill signal may. -/
inductive Delivers (p : Process) (m : Memory) : Delivery → Process → Memory → Prop where
  /-- No signal is taken. On the way back to user code, unless the process waits for a signal, that
  means that it is not to be killed. -/
  | nothing (hk : p.frame.fromUser = true → p.signal.wait = none →
      p.signal.queue.contains killSignal = false) : Delivers p m .none p m
  /-- A signal is taken and no handler is called. Without an entry only the kill signal is taken,
  and it is fatal. -/
  | taken {test : Nat → Bool} {e : PendingSignal} {queue : SignalQueue} {d : Delivery}
      (ht : p.signal.queue.takeFirst test = some (e, queue)) (hk : test killSignal = true)
      (hd : ∀ n f, d ≠ .handled n f) (fatal : e.number = killSignal → d = .fatal killSignal)
      (entry : p.signal.entry = none → e.number = killSignal) :
      Delivers p m d { p with signal := { p.signal with queue } } m
  /-- A signal is taken out of the user code of the process, and its handler is called. -/
  | called {test : Nat → Bool} {e : PendingSignal} {queue : SignalQueue}
      {entry handler f : UInt64} {a : Action} {p' : Process} {m' : Memory}
      (user : p.frame.fromUser = true) (ht : p.signal.queue.takeFirst test = some (e, queue))
      (hk : test killSignal = true) (hn : e.number ≠ killSignal)
      (registered : p.signal.entry = some entry)
      (hcall : enterHandler { p with signal := { p.signal with queue } } m entry handler e a =
        .ok (p', m', f)) :
      Delivers p m (.handled e.number f) p' m'

/-- A delivery that ends is one of the three. -/
theorem deliver_delivers {d : Delivery} (h : p.deliver m = .ok (d, p', m')) :
    Delivers p m d p' m' := by
  unfold deliver at h
  split at h
  · next hskip =>
    cases h
    refine .nothing fun user waits => ?_
    simp [user, waits] at hskip
  next huser =>
  have user : p.frame.fromUser = true := by
    simp only [Bool.or_eq_true, not_or, Bool.not_eq_true', Bool.not_eq_false] at huser
    exact huser.1
  split at h
  · split at h
    · next ht =>
      cases h
      obtain ⟨_, _, _, _, hn, -⟩ := SignalQueue.takeFirst_eq_some ht
      exact .taken ht (beq_self_eq_true _) (by simp) (fun _ => rfl) fun _ => beq_iff_eq.1 hn
    · next ht =>
      cases h
      exact .nothing fun _ _ => SignalQueue.contains_eq_false_of_takeFirst ht (beq_self_eq_true _)
  next entry hentry =>
  have hk := SignalQueue.passes_kill p.signal.mask
  have registered : ∀ n : Nat, p.signal.entry = none → n = killSignal := by simp [hentry]
  split at h
  · next ht =>
    cases h
    exact .nothing fun _ _ => SignalQueue.contains_eq_false_of_takeFirst ht hk
  next ht =>
  dsimp only at h
  split at h
  · cases h
    exact .taken ht hk (by simp) (fun _ => rfl) (registered _)
  next hne =>
  split at h
  · cases h
  split at h
  · cases h
    exact .taken ht hk (by simp) (absurd · hne) (registered _)
  · cases h
    exact .taken ht hk (by simp) (absurd · hne) (registered _)
  -- a handler is called in the same way with and without the value of the signal
  all_goals
    split at h
    · next he =>
      cases h
      exact .called user ht hk hne hentry he
    · cases h
      exact .taken ht hk (by simp) (absurd · hne) (registered _)

/-- A delivery leaves the standing. -/
theorem Delivers.sameStanding {d : Delivery} (h : Delivers p m d p' m') : SameStanding p p' := by
  cases h with
  | nothing => exact .refl p
  | taken ht => exact .of_signal _ _ rfl (SignalQueue.mem_of_takeFirst ht).2
  | called _ ht _ _ _ hcall =>
    refine .trans ?_ (enterHandler_sameStanding hcall)
    exact .of_signal _ _ rfl (SignalQueue.mem_of_takeFirst ht).2

/-- What a running process does to itself leaves its standing. -/
theorem Own.sameStanding (h : Own p p') : SameStanding p p' := by
  cases h with
  | answer v => exact .of_signal _ _ rfl fun _ he => he
  | user frame _ => exact .of_signal _ _ rfl fun _ he => he
  | robust h => exact setRobustList_sameStanding h
  | entry h => exact registerEntry_sameStanding h
  | action h => exact exchangeAction_sameStanding h
  | take h ha => exact awaitSignal_sameStanding h ha
  | deliver h => exact (deliver_delivers h).sameStanding
  | leave h => exact leaveHandler_sameStanding h

/-- The action for a number that is that of a signal is there. -/
theorem action?_of_isSignal (s : SignalState) {n : Nat} (h : isSignal n = true) :
    ∃ a, s.action? n = .ok a := by
  have hn : 1 ≤ n ∧ n ≤ signalCount := by simpa [isSignal] using h
  exact ⟨_, dif_pos hn⟩

/-- Delivering a signal to a process in order does not stop: what is pending are signals, and each
signal has an action. -/
theorem deliver_ends (h : p.Settled) (m : Memory) :
    ∃ d p' m', p.deliver m = .ok (d, p', m') := by
  unfold deliver
  split
  · exact ⟨_, _, _, rfl⟩
  split
  · split <;> exact ⟨_, _, _, rfl⟩
  split
  · exact ⟨_, _, _, rfl⟩
  next taken queue ht =>
    dsimp only
    split
    · exact ⟨_, _, _, rfl⟩
    obtain ⟨a, ha⟩ := action?_of_isSignal { p.signal with queue }
      (h.signals _ (SignalQueue.mem_of_takeFirst ht).1)
    rw [ha]
    dsimp only
    split <;> exact ⟨_, _, _, rfl⟩

end

/-! ## How a process is blocked and woken -/

/-- The record of a process whose receive was ended at its deadline. -/
def expired (p : Process) : Process :=
  { p with
    receive := ({ p.receive with
      receiving := false, deadline := none, timedOut := true } : ReceiveState).clearResult
    frame := p.frame.setReturn Errno.timedOut.toWord
    status := .runnable }

/-- The record of a process whose waiting send was ended with a result. -/
def unsent (p : Process) (result : UInt64) : Process :=
  { p with send := {}, frame := p.frame.setReturn result, status := .runnable }

/-- The record of a process that was handed a message, with so many bytes of payload. -/
def handed (p : Process) (sender : Pid) (value : UInt64) (size : UInt64) (perm : UInt32) :
    Process :=
  { p with
    receive := { p.receive with
      receiving := false, deadline := none, timedOut := false, sender := some sender, value, perm,
      size }
    frame := p.frame.setReturn value
    status := .runnable }

section
variable {p p' : Process} {r : Reason}

/-- A blocked process can be woken. -/
theorem wake_of_blocked (h : p.status = .blocked) (result : UInt64) :
    p.wake result = .ok { p with frame := p.frame.setReturn result, status := .runnable } :=
  if_pos h

/-- The receive of a blocked process can be ended at its deadline. -/
theorem expireReceive_of_blocked (h : p.status = .blocked) : p.expireReceive = .ok p.expired :=
  if_pos h

/-- The waiting send of a blocked process can be ended. -/
theorem finishSend_of_blocked (h : p.status = .blocked) (result : UInt64) :
    p.finishSend result = .ok (p.unsent result) :=
  if_pos h

/-- A record without reasons to be blocked counts none. -/
theorem reasonCount_of_none (h : ∀ r, p.waits r = false) : p.reasonCount = 0 := by
  simp [reasonCount, h]

/-- A record with a single reason to be blocked counts one. -/
theorem reasonCount_of_one (hr : p.waits r = true) (h : ∀ r', r ≠ r' → p.waits r' = false) :
    p.reasonCount = 1 := by
  cases r <;> simp [reasonCount, hr, h]

/-- A process that leaves its only reason to be blocked has none. -/
theorem Settled.waits_eq_false_of_cleared (h : p.Settled) (hr : p.waits r = true)
    (hclear : p'.waits r = false) (hrest : ∀ r', r ≠ r' → p'.waits r' = p.waits r') (r' : Reason) :
    p'.waits r' = false := by
  by_cases hne : r = r'
  · exact hne ▸ hclear
  · rw [hrest r' hne, h.waits_eq_false_of_ne hr hne]

/-- A process that leaves its only reason to be blocked is in order if it is not blocked any more.
-/
theorem Settled.cleared (h : p.Settled) (hr : p.waits r = true) (hs : p'.status ≠ .blocked)
    (hclear : p'.waits r = false) (hrest : ∀ r', r ≠ r' → p'.waits r' = p.waits r')
    (signals : ∀ e ∈ p'.signal.queue.entries, isSignal e.number = true) (cpu : p'.cpu = p.cpu) :
    p'.Settled where
  reasons := by
    rw [if_neg hs]
    exact reasonCount_of_none (h.waits_eq_false_of_cleared hr hclear hrest)
  signals := signals
  cpu c hc := h.cpu c (cpu ▸ hc)
  sender hr' := absurd hr' (by simpa [waits] using
    h.waits_eq_false_of_cleared hr hclear hrest .receive)
  buffer hr' := absurd hr' (by simpa [waits] using
    h.waits_eq_false_of_cleared hr hclear hrest .receive)
  target hs := absurd hs (by simpa [waits] using h.waits_eq_false_of_cleared hr hclear hrest .send)
  answer hf := absurd hf (by simpa [waits] using h.waits_eq_false_of_cleared hr hclear hrest .futex)

/-- A process without a reason to be blocked is in order when it is blocked for one. -/
theorem Settled.entered (h : p.Settled) (hp : p.status ≠ .blocked) (hs : p'.status = .blocked)
    (hr : p'.waits r = true) (hrest : ∀ r', r ≠ r' → p'.waits r' = p.waits r')
    (signals : ∀ e ∈ p'.signal.queue.entries, isSignal e.number = true) (cpu : p'.cpu = p.cpu)
    (sender : p'.receive.receiving = true → p'.receive.sender = none)
    (buffer : p'.receive.receiving = true → p'.receive.capacity.toNat ≤ userLimit)
    (target : p'.send.sending = true → ∃ target, p'.send.target = some target)
    (answer : p'.futex.isSome = true → p'.frame.get .a0 = 0) : p'.Settled where
  reasons := by
    rw [if_pos hs]
    refine reasonCount_of_one hr fun r' hne => ?_
    rw [hrest r' hne, h.waits_eq_false hp r']
  signals := signals
  cpu c hc := h.cpu c (cpu ▸ hc)
  sender := sender
  buffer := buffer
  target := target
  answer := answer

/-- A process without a reason to be blocked may change between statuses that have none. -/
theorem Settled.awake (h : p.Settled) (hp : p.status ≠ .blocked) (hs : p'.status ≠ .blocked)
    (hw : ∀ r, p'.waits r = p.waits r)
    (signals : ∀ e ∈ p'.signal.queue.entries, isSignal e.number = true)
    (cpu : ∀ c, p'.cpu = some c → c < cpuCount) : p'.Settled where
  reasons := by
    rw [if_neg hs]
    exact reasonCount_of_none fun r => by rw [hw, h.waits_eq_false hp r]
  signals := signals
  cpu := cpu
  sender hr := absurd hr (by simpa [waits] using (hw .receive).trans (h.waits_eq_false hp _))
  buffer hr := absurd hr (by simpa [waits] using (hw .receive).trans (h.waits_eq_false hp _))
  target ht := absurd ht (by simpa [waits] using (hw .send).trans (h.waits_eq_false hp _))
  answer hf := absurd hf (by simpa [waits] using (hw .futex).trans (h.waits_eq_false hp _))

/-- A wait for a signal that begins sets the wait, the mask and the status, nothing else. -/
theorem awaitSignal_none {m m' : Memory} {accept : SignalSet} {destination : UInt64}
    (h : p.awaitSignal m accept destination = (.ok none, p', m')) :
    ∃ wait mask, p' = { p with
      signal := { p.signal with wait := some wait, mask }, status := .blocked } := by
  cases awaitSignal_awaits h with
  | waits => exact ⟨_, _, rfl⟩

/-- A process whose receive was ended at its deadline is in order. -/
theorem Settled.expired (h : p.Settled) (hr : p.waits .receive = true) : p.expired.Settled :=
  h.cleared hr nofun rfl (fun r hne => by cases r <;> first | rfl | exact absurd rfl hne)
    h.signals rfl

/-- A process whose waiting send was ended is in order. -/
theorem Settled.unsent (h : p.Settled) (hr : p.waits .send = true) (result : UInt64) :
    (p.unsent result).Settled :=
  h.cleared hr nofun rfl (fun r hne => by cases r <;> first | rfl | exact absurd rfl hne)
    h.signals rfl

/-- A process that was handed a message is in order. -/
theorem Settled.handed (h : p.Settled) (hr : p.waits .receive = true) (sender : Pid)
    (value size : UInt64) (perm : UInt32) : (p.handed sender value size perm).Settled :=
  h.cleared hr nofun rfl (fun r hne => by cases r <;> first | rfl | exact absurd rfl hne)
    h.signals rfl

end

end Process

end SyncKernel
