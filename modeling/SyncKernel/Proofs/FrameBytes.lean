import SyncKernel.Proofs.UserAccess
import SyncKernel.Proofs.Words
import SyncKernel.Signal.Delivery

/-!
# The bytes of a signal frame

A signal frame is 38 words, one after the other, and each word is eight bytes, the lowest first
(`WordAt`). That says what every byte of a frame is, so there is one list of bytes for every frame
and one frame for every list of so many bytes (`SignalFrame.laidOut_iff`).

Returning from a handler reads a frame back, whoever wrote it. Each register is taken from its own
eight bytes as they are, but for two bits of the status (`Process.RestoredFrom`). A process returns
exactly if the frame is aligned and user code may read it (`SignalFrame.encoding_exact`).
-/

namespace SyncKernel

variable {bs : List UInt8}

/-! ## Registers -/

/-- Every place of a saved register is that of one. -/
theorem Register.exists_index (i : Fin registerCount) : ∃ r : Register, r.index = i := by
  have hall : ∀ i : Fin registerCount, all[i].index = i := by decide
  exact ⟨all[i], hall i⟩

namespace TrapFrame

/-- Registers are known by their values. -/
theorem ext_get {f g : TrapFrame} (h : ∀ r, f.get r = g.get r) : f = g := by
  obtain ⟨values⟩ := f
  obtain ⟨values'⟩ := g
  refine congrArg mk (Vector.ext fun i hi => ?_)
  obtain ⟨r, hr⟩ := Register.exists_index ⟨i, hi⟩
  obtain rfl : (r.index : Nat) = i := congrArg Fin.val hr
  exact h r

/-- A register has its place among the values of a frame. -/
theorem getElem?_values (f : TrapFrame) (r : Register) :
    f.values.toList[(r.index : Nat)]? = some (f.get r) := by
  simp [get]

/-- A register is read from the eight bytes at its place. -/
theorem get_ofBytes (bs : List UInt8) (r : Register) :
    (ofBytes bs).get r = word64 (bs.drop (8 * r.index)) := by
  simp [get, ofBytes]

end TrapFrame

/-! ## Frames -/

namespace SignalFrame

variable {f : SignalFrame}

/-- The words of a frame in order. -/
def words (f : SignalFrame) : List UInt64 :=
  f.context.values.toList ++ [f.oldMask, f.signal, f.value, f.handler, f.flags]

/-- Bytes are those of a frame: first its registers in their order, then the mask, the signal with
its value, the handler and the options. -/
structure LaidOut (f : SignalFrame) (bs : List UInt8) : Prop where
  length : bs.length = 304
  registers : ∀ r : Register, WordAt bs (8 * r.index) (f.context.get r)
  oldMask : WordAt bs 264 f.oldMask
  signal : WordAt bs 272 f.signal
  value : WordAt bs 280 f.value
  handler : WordAt bs 288 f.handler
  flags : WordAt bs 296 f.flags

/-- The bytes of a frame are those of its words in their order. -/
theorem toBytes_eq (f : SignalFrame) : f.toBytes = f.words.flatMap word64Bytes := by
  rw [words, List.flatMap_append]
  rfl

/-- What holds of all words of a frame. -/
theorem forall_words {P : Nat → UInt64 → Prop} : (∀ i w, f.words[i]? = some w → P i w) ↔
    (∀ r : Register, P r.index (f.context.get r)) ∧
      P 33 f.oldMask ∧ P 34 f.signal ∧ P 35 f.value ∧ P 36 f.handler ∧ P 37 f.flags := by
  have hcount : f.context.values.toList.length = 33 := Vector.length_toList
  have hregister : ∀ i < 33, f.words[i]? = f.context.values.toList[i]? := fun i hi =>
    List.getElem?_append_left (by omega)
  have hfield : ∀ i, f.words[33 + i]? =
      [f.oldMask, f.signal, f.value, f.handler, f.flags][i]? := fun i => by
    rw [words, List.getElem?_append_right (by omega), hcount, Nat.add_sub_cancel_left]
  constructor
  · intro h
    refine ⟨fun r => h _ _ ?_, h _ _ (hfield 0), h _ _ (hfield 1), h _ _ (hfield 2),
      h _ _ (hfield 3), h _ _ (hfield 4)⟩
    rw [hregister _ r.index.isLt, TrapFrame.getElem?_values]
  · rintro ⟨registers, oldMask, signal, value, handler, flags⟩ i w hw
    by_cases hi : i < 33
    · obtain ⟨r, hr⟩ := Register.exists_index ⟨i, hi⟩
      obtain rfl : (r.index : Nat) = i := congrArg Fin.val hr
      rw [hregister _ hi, TrapFrame.getElem?_values] at hw
      cases hw
      exact registers r
    · obtain ⟨k, rfl⟩ := Nat.exists_eq_add_of_le (Nat.le_of_not_lt hi)
      -- behind the registers there are five words
      rw [hfield] at hw
      match k, hw with
      | 0, rfl => exact oldMask
      | 1, rfl => exact signal
      | 2, rfl => exact value
      | 3, rfl => exact handler
      | 4, rfl => exact flags

/-- The bytes of a frame are those that are laid out as it says. -/
theorem laidOut_iff : f.LaidOut bs ↔ bs = f.toBytes := by
  have hlength : f.words.length = 38 := by simp [words]
  rw [toBytes_eq, eq_flatMap_word64Bytes_iff, hlength, forall_words]
  constructor
  · intro h
    exact ⟨h.length, h.registers, h.oldMask, h.signal, h.value, h.handler, h.flags⟩
  · rintro ⟨hlength, registers, oldMask, signal, value, handler, flags⟩
    exact ⟨hlength, registers, oldMask, signal, value, handler, flags⟩

/-- As many bytes as a frame has are those of the frame read from them. -/
theorem laidOut_ofBytes (h : bs.length = byteSize) : (ofBytes bs).LaidOut bs := by
  have hlength : bs.length = 304 := h
  have hfield : ∀ k ≤ 32, WordAt bs (264 + k) (word64 ((bs.drop 264).drop k)) := fun k hk => by
    rw [List.drop_drop]
    exact wordAt_word64 (by omega)
  refine ⟨hlength, fun r => ?_, ?_, hfield 8 (by omega), hfield 16 (by omega), hfield 24 (by omega),
    hfield 32 (by omega)⟩
  · have hr : (r.index : Nat) < 33 := r.index.isLt
    show WordAt bs _ ((TrapFrame.ofBytes bs).get r)
    rw [TrapFrame.get_ofBytes]
    exact wordAt_word64 (by omega)
  · exact wordAt_word64 (by omega)

/-- Bytes are those of the frame that is read from them. -/
theorem toBytes_ofBytes (h : bs.length = byteSize) : (ofBytes bs).toBytes = bs :=
  (laidOut_iff.1 (laidOut_ofBytes h)).symm

end SignalFrame

/-! ## Returning -/

/-- On the way back to user code two bits of the status are forced, and no other bit changes. -/
theorem TrapFrame.testBit_forceUser (f : TrapFrame) (i : Nat) :
    (f.forceUser.get .status).toNat.testBit i =
      if i = 8 then false else if i = 5 then true else (f.get .status).toNat.testBit i := by
  have hkernel : fromKernelBit.toBitVec = BitVec.twoPow 64 8 := rfl
  have hinterrupt : interruptBit.toBitVec = BitVec.twoPow 64 5 := rfl
  rw [forceUser, get_set, if_pos rfl]
  generalize f.get .status = w
  show (w &&& ~~~fromKernelBit ||| interruptBit).toBitVec.getLsbD i =
    if i = 8 then false else if i = 5 then true else w.toBitVec.getLsbD i
  simp only [UInt64.toBitVec_or, UInt64.toBitVec_and, UInt64.toBitVec_not, BitVec.getLsbD_or,
    BitVec.getLsbD_and, BitVec.getLsbD_not, hkernel, hinterrupt, BitVec.getLsbD_twoPow]
  have hw : w.toBitVec.getLsbD i = true → i < 64 := BitVec.lt_of_getLsbD
  grind

namespace Process

variable {p p' p'' : Process} {m : Memory} {address : UInt64}

/-- A process goes on as the bytes of a frame say: with the registers that stand there, on its way
back to user code with interrupts on, and with the mask that stands there, but for the kill
signal. -/
structure RestoredFrom (p : Process) (bs : List UInt8) (p' : Process) : Prop where
  registers : ∀ r : Register, r ≠ .status → WordAt bs (8 * r.index) (p'.frame.get r)
  status : ∃ w, WordAt bs (8 * Register.status.index) w ∧
    ∀ i, (p'.frame.get .status).toNat.testBit i =
      if i = 8 then false else if i = 5 then true else w.toNat.testBit i
  mask : ∃ w, WordAt bs 264 w ∧ p'.signal.mask = (SignalSet.ofWord w).erase killSignal
  rest : p' = { p with
    frame := p'.frame
    signal := { p.signal with mask := p'.signal.mask } }

/-- The bytes of a frame determine how a process goes on. -/
theorem RestoredFrom.unique (h : p.RestoredFrom bs p') (h' : p.RestoredFrom bs p'') : p' = p'' := by
  have hframe : p'.frame = p''.frame := by
    refine TrapFrame.ext_get fun r => ?_
    by_cases hr : r = .status
    · subst hr
      obtain ⟨w, hw, hbits⟩ := h.status
      obtain ⟨w', hw', hbits'⟩ := h'.status
      cases hw.unique hw'
      exact UInt64.toNat_inj.1 (Nat.eq_of_testBit_eq fun i => by rw [hbits, hbits'])
    · exact (h.registers r hr).unique (h'.registers r hr)
  have hmask : p'.signal.mask = p''.signal.mask := by
    obtain ⟨w, hw, hw₁⟩ := h.mask
    obtain ⟨w', hw', hw₁'⟩ := h'.mask
    cases hw.unique hw'
    exact hw₁.trans hw₁'.symm
  rw [h.rest, h'.rest, hframe, hmask]

/-- A process returns from the bytes that are read at an aligned address. -/
theorem leaveHandler_restores (aligned : address.toNat % frameAlignment = 0)
    (hread : m.userRead p.space address SignalFrame.byteSize = .ok bs) :
    ∃ p', p.leaveHandler m address = .ok p' ∧ p.RestoredFrom bs p' := by
  have hlaid := SignalFrame.laidOut_ofBytes (Memory.length_of_userRead hread)
  unfold leaveHandler
  rw [if_neg (not_not.2 aligned), hread]
  refine ⟨_, rfl, ?_⟩
  constructor
  case registers =>
    intro r hr
    show WordAt bs _ ((SignalFrame.ofBytes bs).context.forceUser.get r)
    rw [TrapFrame.forceUser, TrapFrame.get_set, if_neg hr.symm]
    exact hlaid.registers r
  case status =>
    exact ⟨_, hlaid.registers .status, TrapFrame.testBit_forceUser _⟩
  case mask => exact ⟨_, hlaid.oldMask, rfl⟩
  case rest => rfl

/-- A handler is left through an aligned frame that can be read, and its bytes say how. -/
theorem leaveHandler_iff : p.leaveHandler m address = .ok p' ↔
    address.toNat % frameAlignment = 0 ∧
      ∃ bs, m.userRead p.space address SignalFrame.byteSize = .ok bs ∧ p.RestoredFrom bs p' := by
  constructor
  · intro h
    have hleft := h
    unfold leaveHandler at h
    split at h
    · cases h
    next aligned =>
    split at h
    · cases h
    next bs hread =>
    obtain ⟨p₁, hleft₁, hrestored⟩ := leaveHandler_restores (not_not.1 aligned) hread
    cases hleft.symm.trans hleft₁
    exact ⟨not_not.1 aligned, bs, hread, hrestored⟩
  · rintro ⟨aligned, bs, hread, hrestored⟩
    obtain ⟨p₁, hleft, hrestored₁⟩ := leaveHandler_restores aligned hread
    rw [hleft, hrestored.unique hrestored₁]

end Process

/-- Signal frames and lists of so many bytes belong to each other, one to one: a frame has the bytes
of its words in order, and the first of them are those of its registers. A process returns from a
handler exactly if the frame is aligned and user code may read it, and then goes on as the bytes
say that stand there. -/
theorem SignalFrame.encoding_exact (f : SignalFrame) :
    ofBytes f.toBytes = f ∧
      (∀ bs : List UInt8, bs.length = byteSize → (ofBytes bs).toBytes = bs) ∧
      (∀ bs, bs = f.toBytes ↔ f.LaidOut bs) ∧
      f.toBytes.take TrapFrame.byteSize = f.context.toBytes ∧
      ∀ (p p' : Process) (m : Memory) (address : UInt64),
        p.leaveHandler m address = .ok p' ↔ address.toNat % frameAlignment = 0 ∧
          m.UserRange p.space .toRead address.toNat byteSize ∧
          ∃ bs, bs.length = byteSize ∧ m.Holds p.space address.toNat bs ∧
            p.RestoredFrom bs p' := by
  refine ⟨ofBytes_toBytes f, fun bs => toBytes_ofBytes, fun bs => laidOut_iff.symm,
    List.take_left' f.context.length_toBytes, fun p p' m address => ?_⟩
  rw [Process.leaveHandler_iff]
  simp only [Memory.userRead_eq_ok]
  constructor
  · rintro ⟨aligned, bs, ⟨range, hlength, hholds⟩, hrestored⟩
    exact ⟨aligned, range, bs, hlength, hholds, hrestored⟩
  · rintro ⟨aligned, range, bs, hlength, hholds, hrestored⟩
    exact ⟨aligned, bs, ⟨range, hlength, hholds⟩, hrestored⟩

/-- A process that runs in a handler. -/
def forger : Process where
  pid := .ofSlot 1 0
  status := .running
  frame := .newUser 0x1000 0x10000
  space := 0

/-- As many bytes as a frame has, each one more than the one before. -/
def counted : List UInt8 :=
  (List.range SignalFrame.byteSize).map UInt8.ofNat

/-- A process returns from bytes that it made up. The status among them would return to the kernel
with interrupts off, and the mask has the kill signal; it does not come to that. -/
theorem SignalFrame.encoding_exact_of_counted :
    ∃ (m : Memory) (p' : Process), (ofBytes counted).toBytes = counted ∧
      m.bytes? 0 0x10010 byteSize = some counted ∧
      forger.leaveHandler m 0x10010 = .ok p' ∧
      p'.frame.get .a0 = 0x0706050403020100 ∧ p'.frame.get .pc = 0xfffefdfcfbfaf9f8 ∧
      WordAt counted 256 0x0706050403020100 ∧
      (p'.frame.get .status).toNat.testBit 8 = false ∧
      (p'.frame.get .status).toNat.testBit 5 = true ∧
      p'.signal.mask = (SignalSet.ofWord 0x0f0e0d0c0b0a0908).erase killSignal := by
  have hplay : ((({} : Memory).map 0 0x10000 0x1000 .userReadWrite).toOption.any fun m =>
      (m.store 0 0x10010 counted).toOption.any fun m =>
        (forger.leaveHandler m 0x10010).toOption.any fun _ =>
          m.bytes? 0 0x10010 byteSize = some counted) = true := by
    decide +kernel
  obtain ⟨m₀, -, hplay⟩ := Memory.exists_of_any_toOption hplay
  obtain ⟨m, -, hplay⟩ := Memory.exists_of_any_toOption hplay
  obtain ⟨p', hleft, hplay⟩ := Memory.exists_of_any_toOption hplay
  have hbytes := of_decide_eq_true hplay
  obtain ⟨-, hback, -, -, hleave⟩ := encoding_exact (ofBytes counted)
  obtain ⟨-, -, bs, hlength, hholds, hrestored⟩ := (hleave forger p' m 0x10010).1 hleft
  cases hbytes.symm.trans (Memory.bytes?_eq_some.2 ⟨hlength, hholds⟩)
  have ha0 : WordAt counted 0 0x0706050403020100 := wordAt_iff.2 (by decide)
  have hpc : WordAt counted 248 0xfffefdfcfbfaf9f8 := wordAt_iff.2 (by decide)
  have hstatus : WordAt counted 256 0x0706050403020100 := wordAt_iff.2 (by decide)
  have hmask : WordAt counted 264 0x0f0e0d0c0b0a0908 := wordAt_iff.2 (by decide)
  obtain ⟨_, _, hbits⟩ := hrestored.status
  obtain ⟨w, hw, hmask'⟩ := hrestored.mask
  cases hw.unique hmask
  exact ⟨m, p', hback counted hlength, hbytes, hleft,
    (hrestored.registers .a0 (by decide)).unique ha0,
    (hrestored.registers .pc (by decide)).unique hpc, hstatus, hbits 8, hbits 5, hmask'⟩

end SyncKernel
