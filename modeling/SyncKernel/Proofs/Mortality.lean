import SyncKernel.Proofs.Changes
import SyncKernel.Proofs.Nesting
import SyncKernel.Proofs.Processes

/-!
# The kill signal and one process

Nothing that happens to the record of a process may come between it and the kill signal. Two things
are said of that. `SignalState.Mortal` is an invariant: no mask that is or will be in force has the
kill signal, its action is the standard one, and a process that waits for a signal is not to be
killed. And once the kill signal is pending it stays pending, behind the same signals or fewer
(`SignalQueue.Keeps`). The changes of a record (`Process.Change`) keep both, bring nobody back from
the dead, and do not take a process out of user mode (`Process.Held`). Only a delivery takes the
kill signal out of the queue. In user mode it ends the process, or it takes one of the signals in
front of the kill signal (`Process.Delivers.condemned`), and there are fewer of those than a queue
has room for (`SignalQueue.length_ahead_lt`).
-/

namespace SyncKernel

/-! ## Queues -/

namespace SignalQueue

variable {q q' : SignalQueue} {e : PendingSignal} {test : Nat → Bool}

/-- The pending signals in front of the kill signal. -/
def ahead (q : SignalQueue) : List PendingSignal :=
  q.entries.takeWhile fun e => e.number != killSignal

/-- If the kill signal is pending it stays pending, and no signal gets in front of it. -/
def Keeps (q q' : SignalQueue) : Prop :=
  q.contains killSignal = true → q'.contains killSignal = true ∧ q'.ahead.Sublist q.ahead

/-- One of the signals in front of the kill signal is gone; the others are as they were, and the
kill signal is still behind them. -/
def Drops (q q' : SignalQueue) : Prop :=
  ∃ l₁ e l₂, q.entries = l₁ ++ e :: l₂ ∧ q'.entries = l₁ ++ l₂ ∧
    (∀ x ∈ l₁, x.number ≠ killSignal) ∧ e.number ≠ killSignal ∧ ∃ x ∈ l₂, x.number = killSignal

/-- The kill signal does not stand in front of itself. -/
theorem length_ahead_lt (h : q.contains killSignal = true) : q.ahead.length < q.length := by
  obtain ⟨x, hx, hn⟩ := contains_eq_true.1 h
  have hprefix : q.ahead <+: q.entries := List.takeWhile_prefix _
  refine Nat.lt_of_le_of_ne hprefix.length_le fun hlength => ?_
  have heq : q.ahead = q.entries := hprefix.eq_of_length hlength
  rw [← heq] at hx
  have hne := List.mem_takeWhile_imp hx
  simp [hn] at hne

namespace Keeps

theorem refl (q : SignalQueue) : q.Keeps q :=
  fun h => ⟨h, .refl _⟩

theorem trans {q₁ : SignalQueue} (h : q.Keeps q₁) (h' : q₁.Keeps q') : q.Keeps q' := fun hk => by
  obtain ⟨hk₁, hahead⟩ := h hk
  obtain ⟨hk', hahead'⟩ := h' hk₁
  exact ⟨hk', hahead'.trans hahead⟩

/-- A signal that is sent gets behind the others. -/
theorem push (h : q.push e = .ok q') : q.Keeps q' := fun hk => by
  have hne : (q.entries.takeWhile fun e => e.number != killSignal).length ≠ q.entries.length :=
    Nat.ne_of_lt (length_ahead_lt hk)
  obtain ⟨-, rfl⟩ := push_eq_ok.1 h
  obtain ⟨x, hx, hn⟩ := contains_eq_true.1 hk
  refine ⟨contains_eq_true.2 ⟨x, List.mem_append_left _ hx, hn⟩, ?_⟩
  have hahead : (⟨q.entries ++ [e]⟩ : SignalQueue).ahead = q.ahead := by
    rw [ahead, List.takeWhile_append, if_neg hne, ahead]
  rw [hahead]

/-- Another signal is taken. -/
theorem take (h : q.takeFirst test = some (e, q')) (he : e.number ≠ killSignal) : q.Keeps q' :=
    fun hk => by
  obtain ⟨l₁, l₂, hq, hq', -⟩ := takeFirst_eq_some h
  obtain ⟨x, hx, hn⟩ := contains_eq_true.1 hk
  have hxe : x ≠ e := by
    rintro rfl
    exact he hn
  have hx' : x ∈ q'.entries := by
    rw [hq] at hx
    rw [hq']
    simpa [hxe] using hx
  refine ⟨contains_eq_true.2 ⟨x, hx', hn⟩, ?_⟩
  rw [ahead, ahead, hq, hq', List.takeWhile_append, List.takeWhile_append]
  split
  · rw [List.takeWhile_cons_of_pos (by simpa using he)]
    exact (List.sublist_cons_self _ _).append_left l₁
  · exact .refl _

end Keeps

/-- If the kill signal may be taken and another one is, that one stood in front of it. -/
theorem Drops.take (h : q.takeFirst test = some (e, q')) (he : e.number ≠ killSignal)
    (ht : test killSignal = true) (hk : q.contains killSignal = true) : q.Drops q' := by
  obtain ⟨l₁, l₂, hq, hq', -, hl₁⟩ := takeFirst_eq_some h
  have hnot : ∀ x ∈ l₁, x.number ≠ killSignal := by
    intro x hx hn
    have hf := hl₁ x hx
    rw [hn, ht] at hf
    cases hf
  refine ⟨l₁, e, l₂, hq, hq', hnot, he, ?_⟩
  obtain ⟨x, hx, hn⟩ := contains_eq_true.1 hk
  rw [hq, List.mem_append, List.mem_cons] at hx
  rcases hx with hx | rfl | hx
  · exact absurd hn (hnot x hx)
  · exact absurd hn he
  · exact ⟨x, hx, hn⟩

/-- A kill signal behind others is pending when one of them is gone. -/
theorem Drops.contains (h : q.Drops q') : q'.contains killSignal = true := by
  obtain ⟨l₁, e, l₂, -, hq', -, -, x, hx, hn⟩ := h
  exact contains_eq_true.2 ⟨x, hq' ▸ List.mem_append_right _ hx, hn⟩

/-- One signal less stands in front of the kill signal. -/
theorem Drops.length_ahead (h : q.Drops q') : q'.ahead.length + 1 = q.ahead.length := by
  obtain ⟨l₁, e, l₂, hq, hq', hl₁, he, -⟩ := h
  have hpos : ∀ x ∈ l₁, (x.number != killSignal) = true := by simpa using hl₁
  rw [ahead, ahead, hq, hq', List.takeWhile_append_of_pos hpos, List.takeWhile_append_of_pos hpos,
    List.takeWhile_cons_of_pos (by simpa using he)]
  simp only [List.length_append, List.length_cons]
  omega

end SignalQueue

/-! ## The invariant -/

/-- The signal state of a process lets the kill signal through. -/
structure SignalState.Mortal (s : SignalState) : Prop where
  /-- The kill signal is not masked. -/
  mask : s.mask.contains killSignal = false
  /-- It will not be masked when a wait for a signal is over. -/
  saved : ∀ w, s.wait = some w → w.saved.contains killSignal = false
  /-- It is not waited for. -/
  accept : ∀ w, s.wait = some w → w.accept.contains killSignal = false
  /-- A process that is to be killed does not wait for a signal. -/
  awake : s.queue.contains killSignal = true → s.wait = none
  /-- The action for it is the standard one. -/
  action : s.action? killSignal = .ok .standard
  /-- There are no more pending signals than there is room for. -/
  room : s.queue.length ≤ queueCapacity

/-- The kill signal is pending for a process. -/
def Process.Condemned (p : Process) : Prop :=
  p.signal.queue.contains killSignal = true

/-- Whether a trap came from user code is told by the status register. -/
theorem TrapFrame.fromUser_congr {f f' : TrapFrame} (h : f'.get .status = f.get .status) :
    f'.fromUser = f.fromUser := by
  rw [fromUser, fromUser, h]

/-- A frame that is forced to user mode is one of user code. -/
theorem TrapFrame.fromUser_forceUser (f : TrapFrame) : f.forceUser.fromUser = true := by
  have hbits : ∀ w : UInt64, (w &&& ~~~fromKernelBit ||| interruptBit) &&& fromKernelBit = 0 := by
    intro w
    refine UInt64.toBitVec_inj.1 (BitVec.eq_of_getLsbD_eq fun i hi => ?_)
    have hzero : (0 : UInt64).toBitVec.getLsbD i = false := by simp
    have hboth : (interruptBit &&& fromKernelBit).toBitVec.getLsbD i = false := hzero
    simp only [UInt64.toBitVec_and, UInt64.toBitVec_or, UInt64.toBitVec_not, BitVec.getLsbD_and,
      BitVec.getLsbD_or, BitVec.getLsbD_not] at hboth ⊢
    grind
  rw [fromUser, forceUser, get_set, if_pos rfl, hbits]
  rfl

namespace SignalState

variable {s : SignalState}

/-- The action for another signal may be replaced. -/
theorem action?_setAction_of_ne {n n' : Nat} (a : Action) (h : n ≠ n') :
    (s.setAction n a).action? n' = s.action? n' := by
  unfold setAction
  split
  · next hn =>
    unfold action?
    split
    · next hn' =>
      have hne : n - 1 ≠ n' - 1 := by omega
      exact congrArg Except.ok (Vector.getElem_set_ne (by omega) (by omega) hne)
    · rfl
  · rfl

namespace Mortal

/-- A new process can be killed. -/
theorem fresh : ({} : SignalState).Mortal where
  mask := SignalSet.contains_empty _
  saved := nofun
  accept := nofun
  awake := nofun
  action := by decide
  room := Nat.zero_le _

/-- A signal state that lets the kill signal through does so whatever the actions for other signals
are. -/
theorem setAction (h : s.Mortal) {n : Nat} (a : Action) (hn : n ≠ killSignal) :
    (s.setAction n a).Mortal := by
  have haction := (action?_setAction_of_ne a hn).trans h.action
  obtain ⟨hw, hq⟩ := Process.setAction_wait_queue s n a
  have hmask : (s.setAction n a).mask = s.mask := by
    unfold SignalState.setAction
    split <;> rfl
  exact ⟨hmask ▸ h.mask, hw ▸ h.saved, hw ▸ h.accept, by rw [hw, hq]; exact h.awake, haction,
    hq ▸ h.room⟩

/-- Pending signals may be taken. -/
theorem taken (h : s.Mortal) {test : Nat → Bool} {e : PendingSignal} {queue : SignalQueue}
    (ht : s.queue.takeFirst test = some (e, queue)) : ({ s with queue } : SignalState).Mortal where
  mask := h.mask
  saved := h.saved
  accept := h.accept
  awake hk := by
    obtain ⟨x, hx, hn⟩ := SignalQueue.contains_eq_true.1 hk
    exact h.awake (SignalQueue.contains_eq_true.2 ⟨x, (SignalQueue.mem_of_takeFirst ht).2 x hx, hn⟩)
  action := h.action
  room := by
    obtain ⟨l₁, l₂, hq, hq', -⟩ := SignalQueue.takeFirst_eq_some ht
    have hroom := h.room
    simp only [SignalQueue.length, hq, hq', List.length_append, List.length_cons] at hroom ⊢
    omega

/-- A signal may be sent, but the kill signal only to a process that does not wait. -/
theorem pushed (h : s.Mortal) {n : Nat} {value : UInt64} {queue : SignalQueue}
    (hq : s.queue.push ⟨n, value⟩ = .ok queue) (hw : n = killSignal → s.wait = none) :
    ({ s with queue } : SignalState).Mortal := by
  obtain ⟨hfull, rfl⟩ := SignalQueue.push_eq_ok.1 hq
  refine ⟨h.mask, h.saved, h.accept, fun hk => ?_, h.action, ?_⟩
  · obtain ⟨x, hx, hn⟩ := SignalQueue.contains_eq_true.1 hk
    rcases List.mem_append.1 hx with hx | hx
    · exact h.awake (SignalQueue.contains_eq_true.2 ⟨x, hx, hn⟩)
    · rw [List.mem_singleton.1 hx] at hn
      exact hw hn
  · simp only [SignalQueue.isFull, decide_eq_false_iff_not, not_le] at hfull
    simp only [SignalQueue.length, List.length_append, List.length_singleton]
    exact hfull

/-- The mask may be replaced by one without the kill signal. -/
theorem masked (h : s.Mortal) {mask : SignalSet} (hm : mask.contains killSignal = false) :
    ({ s with mask } : SignalState).Mortal :=
  ⟨hm, h.saved, h.accept, h.awake, h.action, h.room⟩

/-- A wait for a signal may be given up, with the mask from before or the one that is in force. -/
theorem unwaiting (h : s.Mortal) {mask : SignalSet} (hm : mask.contains killSignal = false) :
    ({ s with wait := none, mask } : SignalState).Mortal :=
  ⟨hm, nofun, nofun, fun _ => rfl, h.action, h.room⟩

/-- A wait for signals begins if the process is not to be killed. -/
theorem waiting (h : s.Mortal) (accept : SignalSet) (destination : UInt64)
    (hk : s.queue.contains killSignal = false) :
    ({ s with
      wait := some ⟨accept.erase killSignal, s.mask, destination⟩
      mask := s.mask.difference (accept.erase killSignal) } : SignalState).Mortal where
  mask := by rw [SignalSet.contains_difference, h.mask, Bool.false_and]
  saved w hw := by
    cases hw
    exact h.mask
  accept w hw := by
    cases hw
    exact SignalSet.contains_erase_kill accept
  awake hk' := absurd hk' (by simp [hk])
  action := h.action
  room := h.room

end Mortal

end SignalState

/-! ## Changes of a record -/

namespace Process

variable {p p' : Process} {m m' : Memory}

/-- A process that lets the kill signal through does so after it was sent a signal. -/
theorem Signalled.mortal {n : Nat} {value : UInt64} {a : Except Errno Sent}
    (h : Signalled p m n value a p' m') (hp : p.signal.Mortal) : p'.signal.Mortal := by
  cases h with
  | refused | merged => exact hp
  | queued _ hq hw =>
    refine hp.pushed hq fun hn => ?_
    exact Option.eq_none_iff_forall_ne_some.2 fun w hw' => (hw w hw').1 hn
  | interrupted _ hq hw => exact (hp.unwaiting (hp.saved _ hw)).pushed hq fun _ => rfl
  | handed hw | lost hw => exact hp.unwaiting (hp.saved _ hw)

/-- Sending a signal leaves the mode of its target. -/
theorem Signalled.mode {n : Nat} {value : UInt64} {a : Except Errno Sent}
    (h : Signalled p m n value a p' m') : p'.frame.get .status = p.frame.get .status := by
  cases h with
  | refused | merged | queued | lost => rfl
  | interrupted | handed => exact TrapFrame.get_setReturn_of_ne _ _ nofun

/-- Sending a signal puts none in front of the kill signal. -/
theorem Signalled.keeps {n : Nat} {value : UInt64} {a : Except Errno Sent}
    (h : Signalled p m n value a p' m') : p.signal.queue.Keeps p'.signal.queue := by
  cases h with
  | refused | merged | handed | lost => exact .refl _
  | queued _ hq | interrupted _ hq => exact .push hq

namespace Change

/-- A change keeps the invariant. -/
theorem mortal (h : p.Change p') (hp : p.signal.Mortal) : p'.signal.Mortal := by
  cases h with
  | aside h => exact h.signal ▸ hp
  | entry h =>
    obtain ⟨entry, rfl⟩ := registerEntry_eq_ok h
    exact ⟨hp.mask, hp.saved, hp.accept, hp.awake, hp.action, hp.room⟩
  | action h =>
    obtain ⟨_, _, rfl, _⟩ | ⟨_, _, _, hx⟩ := exchangeAction_cases h
    · exact hp
    rcases changeAction_eq_ok hx.changed with rfl | ⟨hn, a, rfl⟩
    · exact hp
    · exact hp.setAction a hn
  | await _ h =>
    cases awaitSignal_awaits h with
    | refused => exact hp
    | taken ht => exact hp.taken ht
    | waits hk => exact hp.waiting _ _ hk
  | leave h =>
    obtain ⟨context, mask, rfl⟩ := leaveHandler_eq_ok h
    exact hp.masked (SignalSet.contains_erase_kill mask)
  | sent _ h => exact (signalled_of_sendSignal h).mortal hp
  | buried => exact hp.unwaiting hp.mask

/-- A change leaves a process in user mode. -/
theorem user (h : p.Change p') (hp : p.frame.fromUser = true) : p'.frame.fromUser = true := by
  have same : p'.frame.get .status = p.frame.get .status → p'.frame.fromUser = true :=
    fun hs => (TrapFrame.fromUser_congr hs).trans hp
  cases h with
  | aside h => exact same h.mode
  | entry h =>
    obtain ⟨entry, rfl⟩ := registerEntry_eq_ok h
    exact hp
  | action h =>
    obtain ⟨_, _, rfl, _⟩ | ⟨_, _, _, hx⟩ := exchangeAction_cases h
    · exact hp
    rcases changeAction_eq_ok hx.changed with rfl | ⟨-, a, rfl⟩ <;> exact hp
  | await _ h =>
    cases awaitSignal_awaits h with
    | refused | taken | waits => exact hp
  | leave h =>
    obtain ⟨context, mask, rfl⟩ := leaveHandler_eq_ok h
    exact context.fromUser_forceUser
  | sent _ h => exact same (signalled_of_sendSignal h).mode
  | buried => exact hp

end Change

/-- The kill signal is never taken by a call that waits for signals. -/
theorem Awaits.ne_kill {accept : SignalSet} {destination : UInt64} {a : Except Errno (Option Nat)}
    (h : Awaits p m accept destination a p' m') : a ≠ .ok (some killSignal) := by
  rintro rfl
  generalize ha : (Except.ok (some killSignal) : Except Errno (Option Nat)) = a at h
  cases h with
  | refused | waits => cases ha
  | @taken e _ _ ht =>
    obtain ⟨_, _, _, _, htest, -⟩ := SignalQueue.takeFirst_eq_some ht
    have hn : e.number = killSignal := by simpa using ha.symm
    rw [hn, SignalSet.contains_erase_kill accept] at htest
    cases htest

/-- A change keeps the kill signal pending. -/
theorem Change.keeps (h : p.Change p') : p.signal.queue.Keeps p'.signal.queue := by
  cases h with
  | aside h => exact h.signal ▸ .refl _
  | entry h =>
    obtain ⟨entry, rfl⟩ := registerEntry_eq_ok h
    exact .refl _
  | action h =>
    obtain ⟨_, _, rfl, _⟩ | ⟨_, _, _, hx⟩ := exchangeAction_cases h
    · exact .refl _
    rcases changeAction_eq_ok hx.changed with rfl | ⟨-, a, rfl⟩
    · exact .refl _
    · exact (setAction_wait_queue p.signal _ a).2 ▸ .refl _
  | await _ h =>
    have hne := (awaitSignal_awaits h).ne_kill
    cases awaitSignal_awaits h with
    | refused | waits => exact .refl _
    | taken ht => exact .take ht fun hn => hne (by rw [hn])
  | leave h =>
    obtain ⟨context, mask, rfl⟩ := leaveHandler_eq_ok h
    exact .refl _
  | sent _ h => exact (signalled_of_sendSignal h).keeps
  | buried => exact .refl _

/-- A change brings nobody back from the dead. -/
theorem Change.dying (h : p.Change p') (hd : p.status = .dying) : p'.status = .dying := by
  cases h with
  | aside h => exact h.dying hd
  | entry h => exact (registerEntry_sameStanding h).status.trans hd
  | action h => exact (exchangeAction_sameStanding h).status.trans hd
  | await live | sent live => exact absurd hd live
  | leave h => exact (leaveHandler_sameStanding h).status.trans hd
  | buried => rfl

/-- What every event keeps of a process that is not reclaimed. -/
structure Held (p p' : Process) : Prop where
  pid : p'.pid = p.pid
  mortal : p.signal.Mortal → p'.signal.Mortal
  user : p.frame.fromUser = true → p'.frame.fromUser = true
  dying : p.status = .dying → p'.status = .dying
  keeps : p'.status = .dying ∨ p.signal.queue.Keeps p'.signal.queue

namespace Held

theorem refl (p : Process) : p.Held p :=
  ⟨rfl, id, id, id, .inr (.refl _)⟩

theorem trans {q : Process} (h : p.Held q) (h' : q.Held p') : p.Held p' where
  pid := h'.pid.trans h.pid
  mortal hp := h'.mortal (h.mortal hp)
  user hp := h'.user (h.user hp)
  dying hd := h'.dying (h.dying hd)
  keeps := by
    rcases h.keeps with hq | hk
    · exact .inl (h'.dying hq)
    · exact h'.keeps.imp_right hk.trans

instance : Std.Refl Held := ⟨refl⟩

instance : IsTrans Process Held := ⟨fun _ _ _ => trans⟩

end Held

/-- What leaves all signals keeps what every event keeps. -/
theorem SameSignals.held (h : p.SameSignals p') : p.Held p' where
  pid := h.pid
  mortal hp := h.signal ▸ hp
  user hp := (TrapFrame.fromUser_congr h.mode).trans hp
  dying := h.dying
  keeps := .inr (h.signal ▸ .refl _)

/-- Changes of a record keep what every event keeps. -/
theorem Changes.held (h : p.Changes p') : p.Held p' := by
  induction h with
  | refl => exact .refl p
  | tail _ hc ih => exact ih.trans ⟨hc.pid, hc.mortal, hc.user, hc.dying, .inr hc.keeps⟩

/-! ## Deliveries -/

namespace Delivers

variable {d : Delivery}

/-- A delivery keeps the invariant. -/
theorem mortal (h : Delivers p m d p' m') (hp : p.signal.Mortal) : p'.signal.Mortal := by
  cases h with
  | nothing => exact hp
  | taken ht => exact hp.taken ht
  | @called _ e queue _ _ _ a _ _ _ ht _ hn _ hcall =>
    obtain ⟨frame, signal, rfl, -, hsignal⟩ := enterHandler_eq_ok hcall
    have masked := (hp.taken ht).masked (handlerMask_kill p.signal.mask a e.number)
    rcases hsignal with rfl | rfl
    · exact masked
    · exact masked.setAction _ hn

/-- A delivery leaves the mode alone. -/
theorem mode (h : Delivers p m d p' m') : p'.frame.get .status = p.frame.get .status := by
  cases h with
  | nothing | taken => rfl
  | called _ _ _ _ _ hcall =>
    obtain ⟨frame, signal, rfl, hstatus, -⟩ := enterHandler_eq_ok hcall
    exact hstatus

/-- The kill signal is never handled. -/
theorem ne_kill {n : Nat} {f : UInt64} (h : Delivers p m (.handled n f) p' m') :
    n ≠ killSignal := by
  generalize hd : Delivery.handled n f = d at h
  cases h with
  | nothing => cases hd
  | taken _ _ hne => exact absurd hd.symm (hne n f)
  | called _ _ _ hn =>
    cases hd
    exact hn

/-- A delivery that the process survives keeps the kill signal pending. -/
theorem keeps (h : Delivers p m d p' m') :
    d.isFatal = true ∨ p.signal.queue.Keeps p'.signal.queue := by
  cases h with
  | nothing => exact .inr (.refl _)
  | @taken _ e _ _ ht _ _ fatal =>
    by_cases he : e.number = killSignal
    · exact .inl (by rw [fatal he]; rfl)
    · exact .inr (.take ht he)
  | called _ ht _ hn _ hcall => exact .inr (enterHandler_queue hcall ▸ .take ht hn)

/-- A live process is held by a delivery and what follows it, provided that it dies of a signal that
is fatal. -/
theorem held {q : Process} (h : Delivers p m d q m') (live : p.status ≠ .dying) (hq : q.Held p')
    (fatal : d.isFatal = true → p'.status = .dying) : p.Held p' where
  pid := hq.pid.trans h.sameStanding.pid
  mortal hp := hq.mortal (h.mortal hp)
  user hu := hq.user ((TrapFrame.fromUser_congr h.mode).trans hu)
  dying hd := absurd hd live
  keeps := by
    rcases h.keeps with hfatal | hk
    · exact .inl (fatal hfatal)
    · exact hq.keeps.imp_right hk.trans

/-- A delivery in user mode to a process that is to be killed is fatal, or takes a signal that
stands in front of the kill signal. Without a registered entry it is fatal. -/
theorem condemned (h : Delivers p m d p' m') (hp : p.signal.Mortal) (user : p.frame.fromUser = true)
    (hk : p.Condemned) :
    d.isFatal = true ∨ p.signal.entry ≠ none ∧ p.signal.queue.Drops p'.signal.queue := by
  cases h with
  | nothing hnot =>
    have hclear := hnot user (hp.awake hk)
    cases hclear.symm.trans hk
  | @taken _ e _ _ ht htest _ fatal entry =>
    by_cases he : e.number = killSignal
    · exact .inl (by rw [fatal he]; rfl)
    · exact .inr ⟨fun hnone => he (entry hnone), .take ht he htest hk⟩
  | called _ ht htest hn registered hcall =>
    refine .inr ⟨by simp [registered], ?_⟩
    rw [enterHandler_queue hcall]
    exact .take ht hn htest hk

end Delivers

end Process

end SyncKernel
