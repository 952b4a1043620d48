/-!
# Words as bytes

Memory holds words with the least significant byte first. `littleEndian w n` is the number `n` in
`w` bytes and `ofLittleEndian` is the number a list of bytes stands for. A word is read back from
its place among the bytes of a sequence of words (`word64_drop_flatMap`).
-/

namespace SyncKernel

/-- The `w` low bytes of a number, least significant first. -/
def littleEndian : Nat → Nat → List UInt8
  | 0, _ => []
  | w + 1, n => UInt8.ofNat (n % 256) :: littleEndian w (n / 256)

/-- The number that a list of bytes, least significant first, stands for. -/
def ofLittleEndian : List UInt8 → Nat
  | [] => 0
  | b :: bs => b.toNat + 256 * ofLittleEndian bs

@[simp] theorem length_littleEndian (w n : Nat) : (littleEndian w n).length = w := by
  induction w generalizing n with
  | zero => rfl
  | succ w ih => simp [littleEndian, ih]

/-- Reading `w` bytes back gives the number modulo the number of words of that size. -/
theorem ofLittleEndian_littleEndian (w n : Nat) :
    ofLittleEndian (littleEndian w n) = n % Nat.pow 256 w := by
  induction w generalizing n with
  | zero => simp [littleEndian, ofLittleEndian, Nat.mod_one]
  | succ w ih =>
    have h : (UInt8.ofNat (n % 256)).toNat = n % 256 := by
      simp
    have hpow : Nat.pow 256 (w + 1) = 256 * Nat.pow 256 w := Nat.mul_comm _ _
    rw [littleEndian, ofLittleEndian, ih, h, hpow, Nat.mod_mul]

/-- The bytes of the number a list of bytes stands for are that list. -/
theorem littleEndian_ofLittleEndian (bs : List UInt8) :
    littleEndian bs.length (ofLittleEndian bs) = bs := by
  induction bs with
  | nil => rfl
  | cons b bs ih =>
    have hb : b.toNat < 256 := b.toNat_lt
    have h₁ : (b.toNat + 256 * ofLittleEndian bs) % 256 = b.toNat := by omega
    have h₂ : (b.toNat + 256 * ofLittleEndian bs) / 256 = ofLittleEndian bs := by omega
    simp only [List.length_cons, littleEndian, ofLittleEndian, h₁, h₂, ih]
    simp

/-- The eight bytes of a 64-bit word. -/
def word64Bytes (w : UInt64) : List UInt8 :=
  littleEndian 8 w.toNat

/-- The four bytes of a 32-bit word. -/
def word32Bytes (w : UInt32) : List UInt8 :=
  littleEndian 4 w.toNat

/-- The 64-bit word that the first eight bytes of a list stand for. -/
def word64 (bs : List UInt8) : UInt64 :=
  UInt64.ofNat (ofLittleEndian (bs.take 8))

/-- The 32-bit word that the first four bytes of a list stand for. -/
def word32 (bs : List UInt8) : UInt32 :=
  UInt32.ofNat (ofLittleEndian (bs.take 4))

@[simp] theorem length_word64Bytes (w : UInt64) : (word64Bytes w).length = 8 :=
  length_littleEndian 8 w.toNat

@[simp] theorem length_word32Bytes (w : UInt32) : (word32Bytes w).length = 4 :=
  length_littleEndian 4 w.toNat

/-- A word is read back from its bytes. -/
theorem word32_word32Bytes (w : UInt32) : word32 (word32Bytes w) = w := by
  have htake : (word32Bytes w).take 4 = word32Bytes w :=
    List.take_of_length_le (Nat.le_of_eq (length_word32Bytes w))
  have hpow : Nat.pow 256 4 = UInt32.size := by decide
  rw [word32, htake, word32Bytes, ofLittleEndian_littleEndian, hpow,
    Nat.mod_eq_of_lt w.toNat_lt_size, UInt32.ofNat_toNat]

/-- A word is read back from its bytes, whatever follows them. -/
theorem word64_word64Bytes_append (w : UInt64) (rest : List UInt8) :
    word64 (word64Bytes w ++ rest) = w := by
  have htake : (word64Bytes w ++ rest).take 8 = word64Bytes w :=
    List.take_left' (length_word64Bytes w)
  have hpow : Nat.pow 256 8 = UInt64.size := by decide
  rw [word64, htake, word64Bytes, ofLittleEndian_littleEndian, hpow,
    Nat.mod_eq_of_lt w.toNat_lt_size, UInt64.ofNat_toNat]

@[simp] theorem length_flatMap_word64Bytes (ws : List UInt64) :
    (ws.flatMap word64Bytes).length = 8 * ws.length := by
  induction ws with
  | nil => rfl
  | cons w ws ih =>
    rw [List.flatMap_cons, List.length_append, length_word64Bytes, ih, List.length_cons]
    omega

/-- Every word of a sequence is read back from its place, whatever follows the sequence. -/
theorem word64_drop_flatMap {ws : List UInt64} (rest : List UInt8) {i : Nat} (h : i < ws.length) :
    word64 ((ws.flatMap word64Bytes ++ rest).drop (8 * i)) = ws[i] := by
  induction ws generalizing i with
  | nil => exact absurd h (Nat.not_lt_zero i)
  | cons w ws ih =>
    rw [List.flatMap_cons, List.append_assoc]
    cases i with
    | zero => exact word64_word64Bytes_append w _
    | succ i =>
      have hdrop : 8 * (i + 1) = (word64Bytes w).length + 8 * i := by
        rw [length_word64Bytes]
        omega
      rw [hdrop, List.drop_length_add_append]
      exact ih (Nat.lt_of_succ_lt_succ h)

end SyncKernel
