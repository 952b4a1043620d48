import SyncKernel.Errno
import SyncKernel.Limits

/-!
# Signal sets

Signals are numbered from 1 to `signalCount`. A set of signals is a 64-bit word in which signal `n`
has bit `n - 1`; masks, accepted signals and action masks are such sets. `contains_insert`,
`contains_erase`, `contains_union` and `contains_difference` say what the operations do to
membership.
-/

namespace SyncKernel

/-- Whether a number is that of a signal. -/
def isSignal (n : Nat) : Bool :=
  decide (1 ≤ n ∧ n ≤ signalCount)

/-- The signal that ends a process and can be neither caught, ignored nor masked. -/
abbrev killSignal : Nat := 9

/-- A set of signals. -/
structure SignalSet where
  /-- The word with bit `n - 1` for signal `n`. -/
  bits : BitVec 64
deriving DecidableEq

namespace SignalSet

/-- The set with no signal. -/
def empty : SignalSet := ⟨0#64⟩

instance : Inhabited SignalSet := ⟨empty⟩

/-- The set that a word stands for. -/
def ofWord (w : UInt64) : SignalSet := ⟨w.toBitVec⟩

/-- The word of a set. -/
def toWord (s : SignalSet) : UInt64 := UInt64.ofBitVec s.bits

@[simp] theorem ofWord_toWord (s : SignalSet) : ofWord s.toWord = s := rfl

/-- Whether a set has no signal. -/
def isEmpty (s : SignalSet) : Bool := s.bits == 0#64

/-- The set of one signal; no signal has a number out of range. -/
def single (n : Nat) : SignalSet :=
  if isSignal n then ⟨BitVec.twoPow 64 (n - 1)⟩ else empty

/-- Whether a signal is in a set. -/
def contains (s : SignalSet) (n : Nat) : Bool :=
  isSignal n && s.bits.getLsbD (n - 1)

/-- The signals of either set. -/
def union (s t : SignalSet) : SignalSet := ⟨s.bits ||| t.bits⟩

/-- The signals of the first set that are not in the second. -/
def difference (s t : SignalSet) : SignalSet := ⟨s.bits &&& ~~~t.bits⟩

/-- The set with a signal put in. -/
def insert (s : SignalSet) (n : Nat) : SignalSet := s.union (single n)

/-- The set with a signal taken out. -/
def erase (s : SignalSet) (n : Nat) : SignalSet := s.difference (single n)

/-- The bit of a signal, for numbers that are checked. -/
def bit? (n : Nat) : Except Fault UInt64 :=
  if isSignal n then .ok (single n).toWord else .error .signalOutOfRange

/-- The set with a signal put in, for numbers that are checked. -/
def insert? (s : SignalSet) (n : Nat) : Except Fault SignalSet :=
  if isSignal n then .ok (s.insert n) else .error .signalOutOfRange

/-- The set with a signal taken out, for numbers that are checked. -/
def erase? (s : SignalSet) (n : Nat) : Except Fault SignalSet :=
  if isSignal n then .ok (s.erase n) else .error .signalOutOfRange

/-! ## Membership -/

/-- Signals are numbered from 1 to their count. -/
theorem isSignal_iff {n : Nat} : isSignal n = true ↔ 1 ≤ n ∧ n ≤ signalCount := by
  simp [isSignal]

/-- The set of one signal contains that signal and no other. -/
theorem contains_single (n k : Nat) : (single n).contains k = (isSignal k && decide (n = k)) := by
  by_cases hk : isSignal k
  · obtain ⟨hk₁, hk₂⟩ := isSignal_iff.1 hk
    by_cases hn : isSignal n
    · obtain ⟨hn₁, hn₂⟩ := isSignal_iff.1 hn
      have hpos : n - 1 < 64 := by simp only [signalCount] at hn₂; omega
      have hiff : n - 1 = k - 1 ↔ n = k := by omega
      simp [contains, single, hk, hn, BitVec.getLsbD_twoPow, hpos, hiff]
    · have : n ≠ k := fun h => hn (h ▸ hk)
      simp [contains, single, hn, empty, this]
  · simp [contains, hk]

@[simp] theorem contains_empty (k : Nat) : empty.contains k = false := by
  simp [contains, empty]

/-- A union contains what either set contains. -/
@[simp] theorem contains_union (s t : SignalSet) (k : Nat) :
    (s.union t).contains k = (s.contains k || t.contains k) := by
  simp [contains, union, Bool.and_or_distrib_left]

/-- A difference contains what the first set contains and the second does not. -/
@[simp] theorem contains_difference (s t : SignalSet) (k : Nat) :
    (s.difference t).contains k = (s.contains k && !t.contains k) := by
  by_cases hk : isSignal k
  · have : k - 1 < 64 := by
      obtain ⟨h₁, h₂⟩ := isSignal_iff.1 hk
      simp only [signalCount] at h₂
      omega
    simp [contains, difference, hk, this]
  · simp [contains, hk]

/-- Inserting a number adds that signal, if it is one. -/
theorem contains_insert (s : SignalSet) (n k : Nat) :
    (s.insert n).contains k = (s.contains k || (isSignal k && decide (n = k))) := by
  rw [insert, contains_union, contains_single]

/-- Erasing a number takes that signal out, if it is one. -/
theorem contains_erase (s : SignalSet) (n k : Nat) :
    (s.erase n).contains k = (s.contains k && !(isSignal k && decide (n = k))) := by
  rw [erase, contains_difference, contains_single]

/-- A signal that is not in a set need not be taken out. -/
theorem erase_of_not_contains {s : SignalSet} {n : Nat} (h : s.contains n = false) :
    s.erase n = s := by
  obtain ⟨bits⟩ := s
  unfold erase difference single
  split
  · next hn =>
    have hbit : bits.getLsbD (n - 1) = false := by simpa [contains, hn] using h
    refine congrArg mk (BitVec.eq_of_getLsbD_eq fun i hi => ?_)
    by_cases hni : n - 1 = i
    · subst hni
      simp [hbit]
    · have hbit' : (BitVec.twoPow 64 (n - 1)).getLsbD i = false := by
        simp [BitVec.getLsbD_twoPow, hni]
      rw [BitVec.getLsbD_and, BitVec.getLsbD_not, hbit']
      simp [hi]
  · have hnone : ~~~(0#64) = BitVec.allOnes 64 := BitVec.not_zero
    exact congrArg mk (by rw [empty, hnone, BitVec.and_allOnes])

end SignalSet

end SyncKernel
