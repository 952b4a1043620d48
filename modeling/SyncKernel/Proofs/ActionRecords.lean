import SyncKernel.Proofs.Standing
import SyncKernel.Proofs.Words

/-!
# Records of actions

An action comes from user code as a record of 24 bytes and goes back as one. A record is accepted
exactly if it asks for no option that there is not and its handler is in user memory
(`ActionRecord.Acceptable`). What is written back is the record that was given, but for the bit of
the kill signal in its mask and the four bytes that have no meaning (`ActionRecord.normalForm`), and
the same action is read from it again. Which of its forms an action has depends on the word of the
handler and on one option; all of them are told at once in `Action.ofRecord?_eq_ok`, and the rest
follows from that.
-/

namespace SyncKernel

/-! ## Options -/

namespace ActionFlags

variable {f : ActionFlags} {n : Nat}

/-- The options of an action are read back from their bits. -/
theorem truncate_bits (f : ActionFlags) : truncate f.bits = f := by
  obtain ⟨_ | _, _ | _, _ | _⟩ := f <;> rfl

/-- The options of an action fit in 32 bits. -/
theorem bits_lt (f : ActionFlags) : f.bits < UInt32.size := by
  obtain ⟨_ | _, _ | _, _ | _⟩ := f <;> decide

/-- A number is read as options exactly if it is their bits. -/
theorem ofBits?_eq_some : ofBits? n = some f ↔ n = f.bits := by
  unfold ofBits?
  constructor
  · intro h
    split at h
    · next hn =>
      cases h
      exact hn.symm
    · cases h
  · intro hn
    rw [hn, truncate_bits, if_pos rfl]

/-- The options in a 32-bit word. -/
theorem ofBits?_toNat {w : UInt32} : ofBits? w.toNat = some f ↔ UInt32.ofNat f.bits = w := by
  rw [ofBits?_eq_some]
  constructor
  · intro h
    rw [← h, UInt32.ofNat_toNat]
  · intro h
    rw [← h, UInt32.toNat_ofNat_of_lt' f.bits_lt]

/-- Each option is one bit. -/
theorem testBit_bits (f : ActionFlags) (i : Nat) :
    f.bits.testBit i =
      (decide (i = 0) && f.info || decide (i = 30) && f.noDefer || decide (i = 31) && f.reset) := by
  have hlow : f.info.toNat < 2 ^ 30 := by cases f.info <;> decide
  have hmiddle : f.noDefer.toNat < 2 ^ 1 := by cases f.noDefer <;> decide
  have hbits : f.bits = 2 ^ 30 * (2 ^ 1 * f.reset.toNat + f.noDefer.toNat) + f.info.toNat := by
    unfold bits
    omega
  rw [hbits, Nat.testBit_two_pow_mul_add _ hlow, Nat.testBit_two_pow_mul_add _ hmiddle]
  simp only [Nat.testBit_bool_toNat]
  grind

/-- The words of options are those without any other bit. -/
theorem exists_eq_bits : (∃ f : ActionFlags, n = f.bits) ↔
    ∀ i, n.testBit i = true → i = 0 ∨ i = 30 ∨ i = 31 := by
  constructor
  · rintro ⟨f, hf⟩ i hi
    rw [hf, testBit_bits] at hi
    simp at hi
    omega
  · intro h
    refine ⟨truncate n, Nat.eq_of_testBit_eq fun i => ?_⟩
    rw [testBit_bits, truncate]
    have hi := h i
    grind

end ActionFlags

/-! ## Records -/

/-- Taking the kill signal out of a set clears one bit of its word. -/
theorem testBit_erase_kill (s : SignalSet) (i : Nat) :
    (s.erase killSignal).toWord.toNat.testBit i = (s.toWord.toNat.testBit i && decide (i ≠ 8)) := by
  show (s.bits &&& ~~~BitVec.twoPow 64 8).getLsbD i = (s.bits.getLsbD i && decide (i ≠ 8))
  rw [BitVec.getLsbD_and, BitVec.getLsbD_not, BitVec.getLsbD_twoPow]
  have hi : s.bits.getLsbD i = true → i < 64 := BitVec.lt_of_getLsbD
  grind

/-- Taking the kill signal out of a set clears the lowest bit of the second byte of its word. -/
theorem word64Bytes_erase_kill {bs : List UInt8} (h : bs.length = 8) :
    word64Bytes ((SignalSet.ofWord (word64 bs)).erase killSignal).toWord =
      bs.modify 1 (· &&& 0xFE) := by
  have htake : bs.take 8 = bs := List.take_of_length_le h.le
  have hclear : ∀ i < 8, (0xFE : UInt8).toNat.testBit i = decide (i ≠ 0) := by decide
  have hword : ((SignalSet.ofWord (word64 bs)).erase killSignal).toWord.toNat =
      ofLittleEndian (bs.modify 1 (· &&& 0xFE)) := by
    refine Nat.eq_of_testBit_eq fun i => ?_
    have hmod : i % 8 < 8 := Nat.mod_lt _ (by omega)
    rw [testBit_erase_kill, testBit_ofLittleEndian, List.getElem?_modify]
    show ((word64 bs).toNat.testBit i && _) = _
    rw [toNat_word64 h.ge, htake, testBit_ofLittleEndian]
    cases hb : bs[i / 8]? with
    | none => simp
    | some b =>
      by_cases hi : 1 = i / 8
      · have h8 : i ≠ 8 ↔ i % 8 ≠ 0 := by omega
        simp only [if_pos hi]
        show (_ && _) = (b &&& 0xFE).toNat.testBit (i % 8)
        rw [UInt8.toNat_and, Nat.testBit_and, hclear _ hmod, decide_eq_decide.2 h8]
        rfl
      · have h8 : i ≠ 8 := by omega
        simp [hi, h8]
  have hback := littleEndian_ofLittleEndian (bs.modify 1 (· &&& 0xFE))
  rwa [List.length_modify, h, ← hword] at hback

namespace ActionRecord

/-- What a record must be like to be accepted. -/
structure Acceptable (bs : List UInt8) : Prop where
  /-- No option is asked for but those there are: to be told the value, not to mask the signal, and
  to be dropped. -/
  flags : ∀ i, (word32 (bs.drop 16)).toNat.testBit i = true → i = 0 ∨ i = 30 ∨ i = 31
  /-- The handler is in user memory. -/
  handler : (word64 bs).toNat < userLimit

/-- The bytes of a record as they are written back: the kill signal is not in the mask, which clears
one bit, and the four bytes that have no meaning are zero. -/
def normalForm (bs : List UInt8) : List UInt8 :=
  (bs.take 20).modify 9 (· &&& 0xFE) ++ List.replicate 4 0

/-- The record with the kill signal taken out of the mask. -/
def withoutKill (r : ActionRecord) : ActionRecord :=
  { r with mask := ((SignalSet.ofWord r.mask).erase killSignal).toWord }

/-- A record is written back in its normal form. -/
theorem toBytes_withoutKill {bs : List UInt8} (h : bs.length = byteSize) :
    (ofBytes bs).withoutKill.toBytes = normalForm bs := by
  have h24 : bs.length = 24 := h
  have hhandler : word64Bytes (word64 bs) = bs.take 8 := word64Bytes_word64 (by omega)
  have hmask := @word64Bytes_erase_kill ((bs.drop 8).take 8) (by simp [h24])
  have hflags : word32Bytes (word32 (bs.drop 16)) = (bs.drop 16).take 4 :=
    word32Bytes_word32 (by simp [h24])
  have htake : word64 ((bs.drop 8).take 8) = word64 (bs.drop 8) := by
    simp [word64, List.take_take]
  have hsplit : (bs.take 20).modify 9 (· &&& 0xFE) =
      bs.take 8 ++ ((bs.drop 8).take 8).modify 1 (· &&& 0xFE) ++ (bs.drop 16).take 4 := by
    refine List.ext_getElem? fun i => ?_
    grind
  rw [htake] at hmask
  rw [normalForm, hsplit, ← hhandler, ← hmask, ← hflags]
  rfl

/-- A record is read back from its bytes. -/
@[simp] theorem ofBytes_toBytes (r : ActionRecord) : ofBytes r.toBytes = r := by
  have hbytes : r.toBytes = [r.handler, r.mask].flatMap word64Bytes ++
      (word32Bytes r.flags ++ List.replicate 4 0) := by
    simp [toBytes]
  have hhandler : word64 r.toBytes = r.handler := by
    rw [hbytes]
    exact word64_drop_flatMap (i := 0) _ (by simp)
  have hmask : word64 (r.toBytes.drop 8) = r.mask := by
    rw [hbytes]
    exact word64_drop_flatMap (i := 1) _ (by simp)
  have hflags : word32 (r.toBytes.drop 16) = r.flags := by
    have hdrop : r.toBytes.drop 16 = word32Bytes r.flags ++ List.replicate 4 0 := by
      rw [hbytes]
      exact List.drop_left' (length_flatMap_word64Bytes _)
    have hword : word32 (r.toBytes.drop 16) = word32 (word32Bytes r.flags) := by
      rw [hdrop, word32, List.take_left' (length_word32Bytes _), word32, List.take_of_length_le]
      simp
    rw [hword, word32_word32Bytes]
  rw [ofBytes, hhandler, hmask, hflags]

end ActionRecord

namespace Action

/-- An action depends on the handler, the options and the mask without the kill signal. -/
theorem ofRecord?_congr {r r' : ActionRecord} (handler : r.handler = r'.handler)
    (mask : (SignalSet.ofWord r.mask).erase killSignal =
      (SignalSet.ofWord r'.mask).erase killSignal) (flags : r.flags = r'.flags) :
    ofRecord? r = ofRecord? r' := by
  unfold ofRecord?
  rw [handler, mask, flags]

/-- A record is accepted no matter whether the kill signal is in its mask. -/
theorem ofRecord?_withoutKill (r : ActionRecord) : ofRecord? r.withoutKill = ofRecord? r :=
  ofRecord?_congr rfl (SignalSet.erase_of_not_contains (SignalSet.contains_erase_kill _)) rfl

/-- The cases in which a record is accepted, by the word of its handler. -/
theorem ofRecord?_eq_ok {r : ActionRecord} {a : Action} : ofRecord? r = .ok a ↔
    UInt32.ofNat a.flags.bits = r.flags ∧ (SignalSet.ofWord r.mask).erase killSignal = a.mask ∧
      (r.handler = 0 ∧ a.disposition = .terminate ∨ r.handler = 1 ∧ a.disposition = .ignore ∨
        r.handler ≠ 0 ∧ r.handler ≠ 1 ∧ r.handler.toNat < userLimit ∧
          a.disposition =
            if a.flags.info then .handlerWithInfo r.handler else .handler r.handler) := by
  obtain ⟨disposition, mask, flags⟩ := a
  rw [← ActionFlags.ofBits?_toNat]
  unfold ofRecord?
  cases ActionFlags.ofBits? r.flags.toNat with
  | none => simp
  | some flags' =>
    have hlimit : r.handler.toNat < userLimit ↔ ¬ userLimit ≤ r.handler.toNat := Nat.not_le.symm
    dsimp only
    rw [hlimit]
    grind

/-- An action is written back as the record it was read from, without the kill signal. -/
theorem toRecord_of_ofRecord? {r : ActionRecord} {a : Action} (h : ofRecord? r = .ok a) :
    a.toRecord = r.withoutKill := by
  obtain ⟨hflags, hmask, hhandler⟩ := ofRecord?_eq_ok.1 h
  have hword : a.toRecord.handler = r.handler := by
    unfold toRecord
    obtain ⟨h0, hd⟩ | ⟨h1, hd⟩ | ⟨-, -, -, hd⟩ := hhandler
    · rw [hd, h0]
    · rw [hd, h1]
    · rw [hd]
      cases a.flags.info <;> rfl
  show (⟨a.toRecord.handler, a.mask.toWord, UInt32.ofNat a.flags.bits⟩ : ActionRecord) = _
  rw [hword, ← hmask, hflags]
  rfl

/-- A record is accepted exactly if it asks for no option that there is not and its handler is in
user memory. -/
theorem exists_ofRecord?_eq_ok {bs : List UInt8} :
    (∃ a, ofRecord? (.ofBytes bs) = .ok a) ↔ ActionRecord.Acceptable bs := by
  have hflags : ∀ f : ActionFlags,
      UInt32.ofNat f.bits = (ActionRecord.ofBytes bs).flags ↔
        (word32 (bs.drop 16)).toNat = f.bits :=
    fun f => ActionFlags.ofBits?_toNat.symm.trans ActionFlags.ofBits?_eq_some
  constructor
  · rintro ⟨a, h⟩
    obtain ⟨hbits, -, hhandler⟩ := ofRecord?_eq_ok.1 h
    refine ⟨ActionFlags.exists_eq_bits.1 ⟨a.flags, (hflags _).1 hbits⟩, ?_⟩
    show (ActionRecord.ofBytes bs).handler.toNat < userLimit
    obtain ⟨hhandler, -⟩ | ⟨hhandler, -⟩ | ⟨-, -, hlimit, -⟩ := hhandler
    · rw [hhandler]
      decide
    · rw [hhandler]
      decide
    · exact hlimit
  · rintro ⟨known, hlimit⟩
    obtain ⟨f, hf⟩ := ActionFlags.exists_eq_bits.2 known
    by_cases h0 : word64 bs = 0
    · exact ⟨⟨.terminate, _, f⟩, ofRecord?_eq_ok.2 ⟨(hflags f).2 hf, rfl, .inl ⟨h0, rfl⟩⟩⟩
    by_cases h1 : word64 bs = 1
    · exact ⟨⟨.ignore, _, f⟩,
        ofRecord?_eq_ok.2 ⟨(hflags f).2 hf, rfl, .inr (.inl ⟨h1, rfl⟩)⟩⟩
    · exact ⟨⟨if f.info then .handlerWithInfo (word64 bs) else .handler (word64 bs), _, f⟩,
        ofRecord?_eq_ok.2 ⟨(hflags f).2 hf, rfl, .inr (.inr ⟨h0, h1, hlimit, rfl⟩)⟩⟩

/-- The record that an accepted action is written back as, and that the action is read from it
again. -/
theorem toBytes_of_ofRecord? {bs : List UInt8} {a : Action}
    (hbs : bs.length = ActionRecord.byteSize) (h : ofRecord? (.ofBytes bs) = .ok a) :
    a.toRecord.toBytes = ActionRecord.normalForm bs ∧
      ofRecord? (.ofBytes (ActionRecord.normalForm bs)) = .ok a := by
  have hbytes : a.toRecord.toBytes = ActionRecord.normalForm bs := by
    rw [toRecord_of_ofRecord? h, ActionRecord.toBytes_withoutKill hbs]
  refine ⟨hbytes, ?_⟩
  rw [← hbytes, ActionRecord.ofBytes_toBytes, toRecord_of_ofRecord? h, ofRecord?_withoutKill, h]

end Action
end SyncKernel
