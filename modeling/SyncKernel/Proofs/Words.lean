import Mathlib
import SyncKernel.Bytes

/-!
# Words read from bytes

What the words that bytes stand for are made of. The bytes of a word that was read are those that it
was read from (`word64Bytes_word64`, `word32Bytes_word32`), and each bit of the number that some
bytes stand for is a bit of one of them (`testBit_ofLittleEndian`). A word that stands at a place
among some bytes is what is read there (`WordAt.word64_eq`), and the words that stand one after the
other say what all bytes are (`eq_flatMap_word64Bytes_iff`).
-/

namespace SyncKernel

/-- The number that bytes make is less than 256 to the power of their count. -/
theorem ofLittleEndian_lt (bs : List UInt8) : ofLittleEndian bs < Nat.pow 256 bs.length := by
  have h := ofLittleEndian_littleEndian bs.length (ofLittleEndian bs)
  rw [littleEndian_ofLittleEndian] at h
  rw [h]
  exact Nat.mod_lt _ (Nat.pow_pos (by omega))

/-- Bit `i` of a number is in byte `i / 8`. -/
theorem testBit_ofLittleEndian (bs : List UInt8) (i : Nat) :
    (ofLittleEndian bs).testBit i = bs[i / 8]?.any fun b => b.toNat.testBit (i % 8) := by
  induction bs generalizing i with
  | nil => simp [ofLittleEndian]
  | cons b bs ih =>
    have hb : b.toNat < 2 ^ 8 := b.toNat_lt
    rw [ofLittleEndian, Nat.add_comm, show 256 = 2 ^ 8 from rfl, Nat.testBit_two_pow_mul_add _ hb]
    split
    · next hi => simp [Nat.div_eq_of_lt hi, Nat.mod_eq_of_lt hi]
    · next hi =>
      obtain ⟨j, rfl⟩ := Nat.exists_eq_add_of_le (Nat.le_of_not_lt hi)
      have hdiv : (8 + j) / 8 = j / 8 + 1 := by omega
      have hmod : (8 + j) % 8 = j % 8 := by omega
      rw [Nat.add_sub_cancel_left, ih, hdiv, hmod, List.getElem?_cons_succ]

/-- A 64-bit word is the number that its eight bytes make. -/
theorem toNat_word64 {bs : List UInt8} (h : 8 ≤ bs.length) :
    (word64 bs).toNat = ofLittleEndian (bs.take 8) := by
  have hlt := ofLittleEndian_lt (bs.take 8)
  rw [List.length_take_of_le h] at hlt
  exact UInt64.toNat_ofNat_of_lt' hlt

/-- Eight bytes are those of the word that they stand for. -/
theorem word64Bytes_word64 {bs : List UInt8} (h : 8 ≤ bs.length) :
    word64Bytes (word64 bs) = bs.take 8 := by
  have hback := littleEndian_ofLittleEndian (bs.take 8)
  rwa [List.length_take_of_le h, ← toNat_word64 h] at hback

/-- Four bytes are those of the word read from them. -/
theorem word32Bytes_word32 {bs : List UInt8} (h : 4 ≤ bs.length) :
    word32Bytes (word32 bs) = bs.take 4 := by
  have hlength : (bs.take 4).length = 4 := List.length_take_of_le h
  have hlt := ofLittleEndian_lt (bs.take 4)
  rw [hlength] at hlt
  have htoNat : (word32 bs).toNat = ofLittleEndian (bs.take 4) := UInt32.toNat_ofNat_of_lt' hlt
  have hback := littleEndian_ofLittleEndian (bs.take 4)
  rwa [hlength, ← htoNat] at hback

/-! ## Words among bytes -/

section
variable {bs : List UInt8} {k : Nat} {w w' : UInt64} {ws : List UInt64}

/-- A word stands at place `k` of a list of bytes, with its lowest byte first. -/
def WordAt (bs : List UInt8) (k : Nat) (w : UInt64) : Prop :=
  ∀ j < 8, bs[k + j]? = some (UInt8.ofNat (w.toNat >>> (8 * j)))

/-- The bytes of a number are its digits to the base 256, the lowest first. -/
theorem getElem?_littleEndian {width n j : Nat} (h : j < width) :
    (littleEndian width n)[j]? = some (UInt8.ofNat (n >>> (8 * j))) := by
  induction width generalizing n j with
  | zero => exact absurd h (Nat.not_lt_zero j)
  | succ width ih =>
    rw [littleEndian]
    cases j with
    | zero => exact congrArg some UInt8.ofNat_mod_size
    | succ j =>
      have hshift : (n / 256) >>> (8 * j) = n >>> (8 * (j + 1)) := by
        rw [Nat.mul_succ, Nat.add_comm, Nat.shiftRight_add, Nat.shiftRight_eq_div_pow n 8]
      rw [List.getElem?_cons_succ, ih (Nat.lt_of_succ_lt_succ h), hshift]

/-- A word stands at a place exactly if the eight bytes there are its own. -/
theorem wordAt_iff : WordAt bs k w ↔ (bs.drop k).take 8 = word64Bytes w := by
  have hbyte : ∀ j < 8, ((bs.drop k).take 8)[j]? = bs[k + j]? := fun j hj => by
    rw [List.getElem?_take_of_lt hj, List.getElem?_drop]
  constructor
  · intro h
    refine List.ext_getElem? fun j => ?_
    by_cases hj : j < 8
    · rw [hbyte j hj, h j hj, word64Bytes, getElem?_littleEndian hj]
    · rw [List.getElem?_eq_none (by simp; omega), List.getElem?_eq_none (by simp; omega)]
  · intro h j hj
    rw [← hbyte j hj, h, word64Bytes, getElem?_littleEndian hj]

/-- The word at a place is what is read there. -/
theorem WordAt.word64_eq (h : WordAt bs k w) : word64 (bs.drop k) = w := by
  rw [← List.take_append_drop 8 (bs.drop k), wordAt_iff.1 h, word64_word64Bytes_append]

/-- One word stands at a place. -/
theorem WordAt.unique (h : WordAt bs k w) (h' : WordAt bs k w') : w = w' :=
  h.word64_eq.symm.trans h'.word64_eq

/-- The word read at a place stands there. -/
theorem wordAt_word64 (h : k + 8 ≤ bs.length) : WordAt bs k (word64 (bs.drop k)) :=
  wordAt_iff.2 (word64Bytes_word64 (by rw [List.length_drop]; omega)).symm

/-- Bytes are those of words in order exactly if there are so many and each word stands at its
place. -/
theorem eq_flatMap_word64Bytes_iff : bs = ws.flatMap word64Bytes ↔
    bs.length = 8 * ws.length ∧ ∀ i w, ws[i]? = some w → WordAt bs (8 * i) w := by
  have hat : ∀ i w, ws[i]? = some w → WordAt (ws.flatMap word64Bytes) (8 * i) w := by
    intro i w hw
    obtain ⟨hi, rfl⟩ := List.getElem?_eq_some_iff.1 hw
    have hread := word64_drop_flatMap [] hi
    rw [List.append_nil] at hread
    rw [← hread]
    exact wordAt_word64 (by rw [length_flatMap_word64Bytes]; omega)
  constructor
  · rintro rfl
    exact ⟨length_flatMap_word64Bytes ws, hat⟩
  · rintro ⟨hlength, h⟩
    refine List.ext_getElem? fun n => ?_
    by_cases hn : n < bs.length
    · have hj : n % 8 < 8 := Nat.mod_lt n (by omega)
      have hw : ws[n / 8]? = some ws[n / 8] := List.getElem?_eq_getElem (by omega)
      -- byte `n` is byte `n % 8` of word `n / 8`
      rw [← Nat.div_add_mod n 8, h _ _ hw _ hj, hat _ _ hw _ hj]
    · rw [List.getElem?_eq_none (by omega),
        List.getElem?_eq_none (by rw [length_flatMap_word64Bytes]; omega)]

end

end SyncKernel
