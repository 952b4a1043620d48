import SyncKernel.Proofs.Mortality
import SyncKernel.Proofs.UserAccess

/-!
# What a delivery comes to

On the way back to user code the earliest pending signal that may be delivered is taken out of the
queue, if there is one (`Process.Takes`). Its handler is called exactly if there is one, the signal
is not the kill signal, and there is room for the frame below the stack pointer
(`Process.HasRoom`). Then the frame that is written tells how the process was interrupted, the
handler runs with the signals of its action masked, and the process goes on at its entry
(`Process.EntersHandler`). In all other cases the queue is one signal shorter and everything else is
as it was: the room is looked for before anything is changed (`enterHandler_of_not_room`).

The theorem at the end tells all outcomes of a delivery at once, for every process whose pending
signals are signals, whatever its stack pointer is.
-/

namespace SyncKernel

variable {p p' : Process} {m m' : Memory} {e : PendingSignal} {a : Action} {entry handler : UInt64}
  {n : Nat} {s : SignalState}

/-- The address of the handler that is called, if one is. -/
def Disposition.handler? : Disposition → Option UInt64
  | .terminate | .ignore => none
  | .handler address | .handlerWithInfo address => some address

namespace Process

/-- The process is on its way back to user code and does not wait for a signal. -/
def OnWayBack (p : Process) : Prop :=
  p.frame.fromUser = true ∧ p.signal.wait = none

/-- Signal `n` may be delivered. The kill signal always may, another one if an entry is registered
and the mask lets the signal through. -/
def Deliverable (p : Process) (n : Nat) : Prop :=
  n = killSignal ∨ p.signal.entry ≠ none ∧ p.signal.mask.contains n = false

/-- The pending signal `e` is the earliest that may be delivered. It stands behind the signals
`before` and in front of the signals `after`. -/
structure Takes (p : Process) (before : List PendingSignal) (e : PendingSignal)
    (after : List PendingSignal) : Prop where
  back : p.OnWayBack
  queue : p.signal.queue.entries = before ++ e :: after
  deliverable : p.Deliverable e.number
  first : ∀ x ∈ before, ¬ p.Deliverable x.number

/-- The process with other pending signals. -/
def withPending (p : Process) (entries : List PendingSignal) : Process :=
  { p with signal := { p.signal with queue := ⟨entries⟩ } }

/-- The address at which the frame of a handler is written. -/
def frameAddress (p : Process) : Nat :=
  ((p.frame.get .sp).toNat - SignalFrame.byteSize) / frameAlignment * frameAlignment

/-- There is room for the frame of a handler below the stack pointer, and below the frame for the
gap. -/
structure HasRoom (p : Process) (m : Memory) : Prop where
  above : SignalFrame.byteSize ≤ (p.frame.get .sp).toNat
  below : frameGap ≤ p.frameAddress
  writable : m.UserRange p.space .toWrite p.frameAddress SignalFrame.byteSize

/-- What the frame of a handler tells: the interrupted registers and the mask, and of the signal its
number, value, handler and options. -/
def interrupted (p : Process) (e : PendingSignal) (a : Action) (handler : UInt64) :
    SignalFrame where
  context := p.frame
  oldMask := p.signal.mask.toWord
  signal := UInt64.ofNat e.number
  value := e.value
  handler
  flags := UInt64.ofNat a.flags.bits

/-- The process `p`, with the signal `e` already out of its queue, goes on at `entry` with the
address `f` of a frame. -/
structure EntersHandler (p : Process) (m : Memory) (entry handler : UInt64) (e : PendingSignal)
    (a : Action) (f : UInt64) (p' : Process) (m' : Memory) : Prop where
  address : f.toNat = p.frameAddress
  /-- The frame can be read back, and no other byte of the memory changed. -/
  decodes : (m'.bytes? p.space f.toNat SignalFrame.byteSize).map SignalFrame.ofBytes =
    some (p.interrupted e a handler)
  outside : ∀ t c, (∀ i < SignalFrame.byteSize,
      m.physical? t c ≠ m.physical? p.space (f.toNat + i)) → m'.byte? t c = m.byte? t c
  pages : m' = { m with bytes := m'.bytes }
  /-- The mask is the old one with the signals of the action and the signal itself. -/
  mask : ∀ n, p'.signal.mask.contains n = true ↔ n ≠ killSignal ∧
    (p.signal.mask.contains n = true ∨ a.mask.contains n = true ∨
      n = e.number ∧ a.flags.noDefer = false)
  pc : p'.frame.get .pc = entry
  argument : p'.frame.get .a0 = f
  stack : (p'.frame.get .sp).toNat = f.toNat - frameGap ∧ frameGap ≤ f.toNat
  registers : ∀ r, r ≠ .pc → r ≠ .sp → r ≠ .a0 → p'.frame.get r = p.frame.get r
  /-- The action for the signal is dropped if it says so, and no other action changes. -/
  action : p'.signal.action? e.number = .ok (if a.flags.reset then .standard else a)
  actions : ∀ n, n ≠ e.number → p'.signal.action? n = p.signal.action? n
  /-- Nothing else in the record changed. -/
  rest : p' = { p with
    frame := p'.frame
    signal := { p.signal with mask := p'.signal.mask, actions := p'.signal.actions } }

/-- What is reported of a signal whose handler is not called. -/
def report (p : Process) (e : PendingSignal) (a : Action) : Delivery :=
  if e.number = killSignal then .fatal killSignal
  else match a.disposition with
    | .terminate => .fatal e.number
    | .ignore => .ignored e.number
    | .handler _ | .handlerWithInfo _ => .unwritable e.number (p.frame.get .sp)

/-- What becomes of the signal `e`, with the action `a`, that is taken out of the queue of `p` and
leaves the signals `rest` in it. -/
structure DeliversTo (p : Process) (m : Memory) (e : PendingSignal) (a : Action)
    (rest : List PendingSignal) (d : Delivery) (p' : Process) (m' : Memory) : Prop where
  handled : (∃ n f, d = .handled n f) ↔
    e.number ≠ killSignal ∧ a.disposition.handler? ≠ none ∧ p.HasRoom m
  called : ∀ n f, d = .handled n f → n = e.number ∧ ∃ entry handler,
    p.signal.entry = some entry ∧ a.disposition.handler? = some handler ∧
      (p.withPending rest).EntersHandler m entry handler e a f p' m'
  otherwise : (∀ n f, d ≠ .handled n f) → d = p.report e a ∧ p' = p.withPending rest ∧ m' = m

end Process

/-! ## Taking a signal -/

/-- If no signal can be taken, none satisfies the test. -/
theorem SignalQueue.takeFirst_eq_none {q : SignalQueue} {test : Nat → Bool}
    (h : q.takeFirst test = none) {x : PendingSignal} (hx : x ∈ q.entries) :
    test x.number = false := by
  by_contra hne
  have habsent := contains_eq_false_of_takeFirst h (n := x.number) (by simpa using hne)
  rw [contains_eq_true.2 ⟨x, hx, rfl⟩] at habsent
  cases habsent

/-- A mask lets the kill signal through, and the signals that it does not contain. -/
theorem SignalQueue.passes_eq_true {mask : SignalSet} :
    passes mask n = true ↔ n = killSignal ∨ mask.contains n = false := by
  have hkill : isSignal killSignal = true := by decide
  rw [passes, SignalSet.contains_erase]
  by_cases hn : n = killSignal
  · subst hn
    simp [hkill]
  · simp [hn, Ne.symm hn]

namespace Process

/-- A search by a test that tells what may be delivered finds the earliest such signal. -/
theorem takes_of_takeFirst {test : Nat → Bool} {queue : SignalQueue} (back : p.OnWayBack)
    (htest : ∀ n, test n = true ↔ p.Deliverable n)
    (h : p.signal.queue.takeFirst test = some (e, queue)) :
    ∃ before after, p.Takes before e after ∧ queue = ⟨before ++ after⟩ := by
  obtain ⟨before, after, hq, hq', he, hbefore⟩ := SignalQueue.takeFirst_eq_some h
  refine ⟨before, after, ⟨back, hq, (htest _).1 he, fun x hx hd => ?_⟩, ?_⟩
  · have hx := hbefore x hx
    rw [(htest _).2 hd] at hx
    cases hx
  · cases queue
    exact congrArg SignalQueue.mk hq'

/-- If no signal can be taken, none may be delivered. -/
theorem not_deliverable_of_takeFirst {test : Nat → Bool}
    (htest : ∀ n, test n = true ↔ p.Deliverable n) (h : p.signal.queue.takeFirst test = none) :
    ∀ x ∈ p.signal.queue.entries, ¬ p.Deliverable x.number := by
  intro x hx hd
  have hx := SignalQueue.takeFirst_eq_none h hx
  rw [(htest _).2 hd] at hx
  cases hx

end Process

/-! ## Calling a handler -/

/-- The action that was set is there. -/
theorem SignalState.action?_setAction_self (hn : isSignal n = true) (a : Action) :
    (s.setAction n a).action? n = .ok a := by
  have hn : 1 ≤ n ∧ n ≤ signalCount := SignalSet.isSignal_iff.1 hn
  rw [setAction, dif_pos hn, action?, dif_pos hn]
  exact congrArg Except.ok (Vector.getElem_set_self _)

/-- The signals that are masked while a handler runs. -/
theorem contains_handlerMask (old : SignalSet) (a : Action) {k : Nat} (hk : isSignal k = true) :
    (Process.handlerMask old a k).contains n = true ↔ n ≠ killSignal ∧
      (old.contains n = true ∨ a.mask.contains n = true ∨ n = k ∧ a.flags.noDefer = false) := by
  have hkill : isSignal killSignal = true := by decide
  unfold Process.handlerMask
  rw [SignalSet.contains_erase]
  by_cases hn : n = killSignal
  · subst hn
    simp [hkill]
  · by_cases hnk : n = k
    · subst hnk
      cases hdefer : a.flags.noDefer <;> simp [SignalSet.contains_insert, hn, hk, Ne.symm hn]
    · cases hdefer : a.flags.noDefer <;>
        simp [SignalSet.contains_insert, hn, hnk, Ne.symm hn, Ne.symm hnk]

namespace SignalState

/-- The signal state while the handler for signal `n` runs, whose action is `a`. -/
def handling (s : SignalState) (n : Nat) (a : Action) : SignalState :=
  let masked := { s with mask := Process.handlerMask s.mask a n }
  if a.flags.reset then masked.setAction n .standard else masked

/-- While a handler runs, only the mask and the actions differ. -/
theorem handling_eq (s : SignalState) (n : Nat) (a : Action) : s.handling n a =
    { s with mask := Process.handlerMask s.mask a n, actions := (s.handling n a).actions } := by
  unfold handling setAction
  dsimp only
  split
  · split <;> rfl
  · rfl

/-- The action for the handled signal is the standard one again if it was to be reset. -/
theorem action?_handling_self (hn : isSignal n = true) (ha : s.action? n = .ok a) :
    (s.handling n a).action? n = .ok (if a.flags.reset then .standard else a) := by
  unfold handling
  dsimp only
  split
  · exact action?_setAction_self hn _
  · exact ha

/-- The actions for other signals stay while a handler runs. -/
theorem action?_handling_of_ne (s : SignalState) {k : Nat} (a : Action) (hne : k ≠ n) :
    (s.handling n a).action? k = s.action? k := by
  unfold handling
  dsimp only
  split
  · exact action?_setAction_of_ne _ hne.symm
  · rfl

end SignalState

namespace Process

/-- A handler is called if its frame can be written. -/
theorem enterHandler_of_userWrite (above : SignalFrame.byteSize ≤ (p.frame.get .sp).toNat)
    (below : frameGap ≤ p.frameAddress)
    (hwrite : m.userWrite p.space (UInt64.ofNat p.frameAddress)
      (p.interrupted e a handler).toBytes = .ok m') :
    p.enterHandler m entry handler e a = .ok ({ p with
      signal := p.signal.handling e.number a
      frame := ((p.frame.set .pc entry).set .sp
        (UInt64.ofNat (p.frameAddress - frameGap))).set .a0 (UInt64.ofNat p.frameAddress) },
      m', UInt64.ofNat p.frameAddress) := by
  have hroom : ¬ ((p.frame.get .sp).toNat < SignalFrame.byteSize ∨ p.frameAddress < frameGap) := by
    omega
  unfold frameAddress at hroom
  unfold frameAddress interrupted at hwrite
  unfold enterHandler
  dsimp only
  rw [if_neg hroom, hwrite]
  rfl

/-- With room for the frame, a handler is entered. -/
theorem enterHandler_of_room (made : m.Made) (room : p.HasRoom m) (hn : isSignal e.number = true)
    (ha : p.signal.action? e.number = .ok a) (entry handler : UInt64) :
    ∃ f p' m', p.enterHandler m entry handler e a = .ok (p', m', f) ∧
      p.EntersHandler m entry handler e a f p' m' := by
  obtain ⟨above, below, writable⟩ := room
  have hsize := writable.address
  have hf : (UInt64.ofNat p.frameAddress).toNat = p.frameAddress :=
    UInt64.toNat_ofNat_of_lt' (by omega)
  have hsp : (UInt64.ofNat (p.frameAddress - frameGap)).toNat = p.frameAddress - frameGap :=
    UInt64.toNat_ofNat_of_lt' (by omega)
  have hlength : (p.interrupted e a handler).toBytes.length = SignalFrame.byteSize :=
    SignalFrame.length_toBytes _
  obtain ⟨m', hwrite⟩ : ∃ m', m.userWrite p.space (UInt64.ofNat p.frameAddress)
      (p.interrupted e a handler).toBytes = .ok m' := by
    refine Memory.exists_userWrite (Memory.userCheck_iff.2 ?_)
    rw [hf, hlength]
    exact writable
  have hover := made.overwrites hwrite
  have hbytes := Memory.bytes?_eq_some.2 ⟨hlength, hover.holds⟩
  refine ⟨_, _, m', enterHandler_of_userWrite above below hwrite, ?_⟩
  constructor
  case address => exact hf
  case decodes => rw [hbytes, Option.map_some, SignalFrame.ofBytes_toBytes]
  case outside =>
    intro t c hc
    exact hover.others t c (hlength ▸ hc)
  case pages => exact hover.rest
  case mask =>
    intro n
    rw [SignalState.handling_eq]
    exact contains_handlerMask _ a hn
  case pc => simp [TrapFrame.get_set]
  case argument => simp [TrapFrame.get_set]
  case stack =>
    rw [hf]
    refine ⟨?_, below⟩
    simpa [TrapFrame.get_set] using hsp
  case registers =>
    intro r hpc hstack ha0
    simp [TrapFrame.get_set, Ne.symm hpc, Ne.symm hstack, Ne.symm ha0]
  case action => exact SignalState.action?_handling_self hn ha
  case actions =>
    intro n hne
    exact SignalState.action?_handling_of_ne _ a hne
  case rest =>
    dsimp only
    rw [SignalState.handling_eq]

/-- Without room for a frame no handler is called. -/
theorem enterHandler_of_not_room (room : ¬ p.HasRoom m) (entry handler : UInt64) :
    ∃ errno, p.enterHandler m entry handler e a = .error errno := by
  cases hcall : p.enterHandler m entry handler e a with
  | error errno => exact ⟨errno, rfl⟩
  | ok r =>
    obtain ⟨p', m', f⟩ := r
    unfold enterHandler at hcall
    dsimp only at hcall
    split at hcall
    · cases hcall
    next hroom =>
    split at hcall
    · cases hcall
    next hwrite =>
    have hwritable := Memory.userCheck_iff.1 (Memory.check_of_userWrite hwrite)
    rw [SignalFrame.length_toBytes] at hwritable
    have above : SignalFrame.byteSize ≤ (p.frame.get .sp).toNat := by omega
    have below : frameGap ≤ p.frameAddress := by
      rw [frameAddress]
      omega
    have hf : (UInt64.ofNat p.frameAddress).toNat = p.frameAddress := by
      have hsp := (p.frame.get .sp).toNat_lt
      refine UInt64.toNat_ofNat_of_lt' ?_
      simp only [frameAddress, frameAlignment, UInt64.size]
      omega
    exact absurd ⟨above, below, hf ▸ hwritable⟩ room

/-! ## Delivering -/

/-- Whether there is room for a frame does not depend on the pending signals. -/
theorem hasRoom_withPending (rest : List PendingSignal) :
    (p.withPending rest).HasRoom m ↔ p.HasRoom m :=
  ⟨fun h => ⟨h.above, h.below, h.writable⟩, fun h => ⟨h.above, h.below, h.writable⟩⟩

/-- A signal whose handler is not called is reported, and only the queue changed. -/
theorem DeliversTo.of_report {rest : List PendingSignal} {d : Delivery}
    (h : ¬ (e.number ≠ killSignal ∧ a.disposition.handler? ≠ none ∧ p.HasRoom m))
    (hd : p.report e a = d) : p.DeliversTo m e a rest d (p.withPending rest) m := by
  subst hd
  have hreport : ∀ n f, p.report e a ≠ .handled n f := by
    intro n f
    unfold report
    split
    · nofun
    · split <;> nofun
  constructor
  case handled => exact ⟨fun ⟨n, f, hd⟩ => absurd hd (hreport n f), fun hall => absurd hall h⟩
  case called => exact fun n f hd => absurd hd (hreport n f)
  case otherwise => exact fun _ => ⟨rfl, rfl, rfl⟩

/-- A signal whose handler is called. -/
theorem DeliversTo.of_enters {rest : List PendingSignal} {f : UInt64}
    (hne : e.number ≠ killSignal) (room : p.HasRoom m) (hentry : p.signal.entry = some entry)
    (hhandler : a.disposition.handler? = some handler)
    (h : (p.withPending rest).EntersHandler m entry handler e a f p' m') :
    p.DeliversTo m e a rest (.handled e.number f) p' m' where
  handled := ⟨fun _ => ⟨hne, by rw [hhandler]; nofun, room⟩, fun _ => ⟨_, _, rfl⟩⟩
  called n f' hd := by
    cases hd
    exact ⟨rfl, entry, handler, hentry, hhandler, h⟩
  otherwise hd := absurd rfl (hd _ _)

/-- A handler is called if there is room for its frame, and otherwise the signal is reported. -/
theorem deliversTo_of_handler (made : m.Made) (rest : List PendingSignal)
    (hne : e.number ≠ killSignal) (hentry : p.signal.entry = some entry)
    (hhandler : a.disposition.handler? = some handler) (hn : isSignal e.number = true)
    (ha : p.signal.action? e.number = .ok a) :
    (∃ f p' m', (p.withPending rest).enterHandler m entry handler e a = .ok (p', m', f) ∧
        p.DeliversTo m e a rest (.handled e.number f) p' m') ∨
      ∃ errno, (p.withPending rest).enterHandler m entry handler e a = .error errno ∧
        p.DeliversTo m e a rest (.unwritable e.number (p.frame.get .sp)) (p.withPending rest)
          m := by
  by_cases room : p.HasRoom m
  · obtain ⟨f, p', m', hcall, henters⟩ :=
      enterHandler_of_room made ((hasRoom_withPending rest).2 room) hn ha entry handler
    exact .inl ⟨f, p', m', hcall, .of_enters hne room hentry hhandler henters⟩
  · obtain ⟨errno, hcall⟩ :=
      enterHandler_of_not_room (mt (hasRoom_withPending rest).1 room) entry handler
    have hreport : p.report e a = .unwritable e.number (p.frame.get .sp) := by
      unfold report
      rw [if_neg hne]
      cases hd : a.disposition with
      | terminate | ignore =>
        rw [hd] at hhandler
        cases hhandler
      | handler _ | handlerWithInfo _ => rfl
    exact .inr ⟨errno, hcall, .of_report (fun h => room h.2.2) hreport⟩

/-- No signal is taken but on the way back to user code. -/
theorem deliver_of_not_back (h : ¬ p.OnWayBack) : p.deliver m = .ok (.none, p, m) := by
  have hskip : (!p.frame.fromUser || p.signal.wait.isSome) = true := by
    by_contra hne
    simp only [Bool.or_eq_true, Bool.not_eq_true', not_or, Bool.not_eq_false,
      Option.not_isSome_iff_eq_none] at hne
    exact h hne
  rw [deliver, if_pos hskip]

/-- Without a registered entry the kill signal is taken, if it is pending. -/
theorem deliver_of_no_entry (back : p.OnWayBack) (hentry : p.signal.entry = none) :
    ((∀ x ∈ p.signal.queue.entries, ¬ p.Deliverable x.number) ∧
        p.deliver m = .ok (.none, p, m)) ∨
      ∃ before e after, p.Takes before e after ∧ e.number = killSignal ∧
        p.deliver m = .ok (.fatal killSignal, p.withPending (before ++ after), m) := by
  have htest : ∀ n, (n == killSignal) = true ↔ p.Deliverable n := by
    intro n
    simp [Deliverable, hentry]
  have hback : ¬ (!p.frame.fromUser || p.signal.wait.isSome) = true := by
    simp [back.1, back.2]
  rw [deliver, if_neg hback, hentry]
  dsimp only
  cases ht : p.signal.queue.take killSignal with
  | none => exact .inl ⟨not_deliverable_of_takeFirst htest ht, rfl⟩
  | some taken =>
    obtain ⟨e, queue⟩ := taken
    obtain ⟨before, after, takes, rfl⟩ := takes_of_takeFirst back htest ht
    exact .inr ⟨before, e, after, takes, beq_iff_eq.1 ((htest _).2 takes.deliverable), rfl⟩

/-- With a registered entry the first signal that the mask lets through is taken. -/
theorem deliver_of_entry (made : m.Made) (back : p.OnWayBack) (hentry : p.signal.entry = some entry)
    (signals : ∀ e ∈ p.signal.queue.entries, isSignal e.number = true) :
    ((∀ x ∈ p.signal.queue.entries, ¬ p.Deliverable x.number) ∧
        p.deliver m = .ok (.none, p, m)) ∨
      ∃ before e after a d p' m', p.Takes before e after ∧ p.signal.action? e.number = .ok a ∧
        p.deliver m = .ok (d, p', m') ∧ p.DeliversTo m e a (before ++ after) d p' m' := by
  have htest : ∀ n, SignalQueue.passes p.signal.mask n = true ↔ p.Deliverable n := by
    intro n
    rw [SignalQueue.passes_eq_true]
    simp [Deliverable, hentry]
  have hback : ¬ (!p.frame.fromUser || p.signal.wait.isSome) = true := by
    simp [back.1, back.2]
  rw [deliver, if_neg hback, hentry]
  dsimp only
  cases ht : p.signal.queue.takeFirst (SignalQueue.passes p.signal.mask) with
  | none => exact .inl ⟨not_deliverable_of_takeFirst htest ht, rfl⟩
  | some taken =>
    obtain ⟨e, queue⟩ := taken
    obtain ⟨before, after, takes, rfl⟩ := takes_of_takeFirst back htest ht
    have hn := signals e (takes.queue ▸ List.mem_append_cons_self)
    obtain ⟨a, ha⟩ := action?_of_isSignal p.signal hn
    right
    dsimp only
    by_cases hkill : e.number = killSignal
    · rw [if_pos hkill]
      refine ⟨before, e, after, a, _, _, _, takes, ha, rfl, ?_⟩
      exact .of_report (fun h => h.1 hkill) (if_pos hkill)
    rw [if_neg hkill]
    have haction : SignalState.action? { p.signal with queue := ⟨before ++ after⟩ } e.number =
        .ok a := ha
    rw [haction]
    dsimp only
    cases hdisposition : a.disposition with
    | terminate | ignore =>
      refine ⟨before, e, after, a, _, _, _, takes, ha, rfl, ?_⟩
      refine .of_report (fun h => h.2.1 (by rw [hdisposition]; rfl)) ?_
      rw [report, if_neg hkill, hdisposition]
    | handler address | handlerWithInfo address =>
      -- with and without the value of the signal, the same is done
      have hhandler : a.disposition.handler? = some address := by rw [hdisposition]; rfl
      obtain ⟨f, p', m', hcall, hdelivers⟩ | ⟨errno, hcall, hdelivers⟩ :=
        deliversTo_of_handler made (before ++ after) hkill hentry hhandler hn ha
      · refine ⟨before, e, after, a, _, p', m', takes, ha, ?_, hdelivers⟩
        rw [withPending] at hcall
        dsimp only
        rw [hcall]
      · refine ⟨before, e, after, a, _, _, _, takes, ha, ?_, hdelivers⟩
        rw [withPending] at hcall
        dsimp only
        rw [hcall]
        rfl

/-- A delivery ends. If the process is not on its way back to user code, waits for a signal, or no
pending signal may be delivered, then nothing happens. Otherwise the earliest signal that may be
delivered leaves the queue, and its handler is called exactly if it is not the kill signal, has a
handler, and there is room for the frame. -/
theorem deliver_one_signal (made : m.Made)
    (signals : ∀ e ∈ p.signal.queue.entries, isSignal e.number = true) :
    ∃ d p' m', p.deliver m = .ok (d, p', m') ∧
      ((¬ p.OnWayBack ∨ ∀ e ∈ p.signal.queue.entries, ¬ p.Deliverable e.number) ∧
          d = .none ∧ p' = p ∧ m' = m ∨
        ∃ before e after a, p.Takes before e after ∧ p.signal.action? e.number = .ok a ∧
          p.DeliversTo m e a (before ++ after) d p' m') := by
  by_cases back : p.OnWayBack
  case neg => exact ⟨_, _, _, deliver_of_not_back back, .inl ⟨.inl back, rfl, rfl, rfl⟩⟩
  cases hentry : p.signal.entry with
  | none =>
    obtain ⟨hnone, hd⟩ | ⟨before, e, after, takes, hkill, hd⟩ :=
      deliver_of_no_entry (m := m) back hentry
    · exact ⟨_, _, _, hd, .inl ⟨.inr hnone, rfl, rfl, rfl⟩⟩
    · obtain ⟨a, ha⟩ := action?_of_isSignal p.signal (n := e.number) (hkill ▸ by decide)
      refine ⟨_, _, _, hd, .inr ⟨before, e, after, a, takes, ha, ?_⟩⟩
      exact .of_report (fun h => h.1 hkill) (if_pos hkill)
  | some entry =>
    obtain ⟨hnone, hd⟩ | ⟨before, e, after, a, d, p', m', takes, ha, hd, hdelivers⟩ :=
      deliver_of_entry made back hentry signals
    · exact ⟨_, _, _, hd, .inl ⟨.inr hnone, rfl, rfl, rfl⟩⟩
    · exact ⟨d, p', m', hd, .inr ⟨before, e, after, a, takes, ha, hdelivers⟩⟩

/-- Of two pending signals the first one is delivered. Its frame is on the page below the stack
pointer. -/
theorem deliver_one_signal_of_twoSignals :
    ∃ m f p' m', m.Made ∧ twoSignals.deliver m = .ok (.handled 10 f, p', m') ∧
      (twoSignals.withPending [⟨12, 2⟩]).EntersHandler m 0x1000 0x1200 ⟨10, 1⟩
        ⟨.handler 0x1200, .empty, {}⟩ f p' m' := by
  have hplay : ((({} : Memory).map 0 0x1f000 0x1000 .userReadWrite).toOption.any fun m =>
      m.userCheck 0 0x1fed0 SignalFrame.byteSize .toWrite = .ok ()) = true := by
    decide +kernel
  obtain ⟨m, hmap, hcheck⟩ := Memory.exists_of_any_toOption hplay
  have made : m.Made := .map .empty hmap
  have room : twoSignals.HasRoom m :=
    ⟨by decide, by decide, Memory.userCheck_iff.1 (of_decide_eq_true hcheck)⟩
  have hten : twoSignals.Deliverable 10 := .inr ⟨nofun, by decide⟩
  obtain ⟨d, p', m', hd, ⟨hnone, -⟩ | ⟨before, e, after, a, takes, ha, hdelivers⟩⟩ :=
    twoSignals.deliver_one_signal made (by decide)
  · obtain hback | hnone := hnone
    · exact absurd ⟨by decide, rfl⟩ hback
    · exact absurd hten (hnone ⟨10, 1⟩ (by decide))
  have hqueue : [⟨10, 1⟩, ⟨12, 2⟩] = before ++ e :: after := takes.queue
  cases before with
  | cons x before =>
    obtain ⟨rfl, -⟩ := List.cons.inj hqueue
    exact absurd hten (takes.first _ List.mem_cons_self)
  | nil =>
    cases hqueue
    have haction : twoSignals.signal.action? 10 = .ok ⟨.handler 0x1200, .empty, {}⟩ := by decide
    cases haction.symm.trans ha
    obtain ⟨n, f, rfl⟩ := hdelivers.handled.2 ⟨by decide, nofun, room⟩
    obtain ⟨rfl, entry, handler, hentry, hhandler, henters⟩ := hdelivers.called _ _ rfl
    cases hentry
    cases hhandler
    exact ⟨m, f, p', m', made, hd, henters⟩

end Process

end SyncKernel
