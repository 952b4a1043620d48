import SyncKernel.Proofs.Table
import SyncKernel.Proofs.UserAccess

/-!
# Locks of a dead owner

A lock word has 30 bits for its owner, and a process id has 32. The two highest bits of an id are
the highest of its generation, so the bits that are left still tell the slot, and no two processes
of a table have the same ones (`ProcessTable.eq_of_lockOwner`).

They need not tell that there is an owner, though. The ids of slot 0 in every generation that is a
multiple of `2 ^ 22` have no low bit set (`Pid.lockOwner_eq_zero_iff`), just as a lock that nobody
has. A lock word is marked exactly if its owner bits are those of the id (`MarksExactly`); so for
those ids it is the free locks that are marked, and for all others the marked locks have an owner,
which is the process of the id (`owner_mark_exact`).
-/

namespace SyncKernel

variable {word : UInt32} {pid : Pid}

/-! ## Lock words -/

/-- The owner bits of a lock word, or of the id of its owner. -/
def lockOwner (word : UInt32) : UInt32 :=
  word &&& ownerMask

/-- The lock word that a dead owner leaves. -/
def abandoned (word : UInt32) : UInt32 :=
  word &&& waitersBit ||| ownerDiedBit

/-- The owner bits of a lock word are its 30 lowest. -/
theorem toNat_lockOwner (word : UInt32) : (lockOwner word).toNat = word.toNat % 2 ^ 30 := by
  have hmask : ownerMask.toNat = 2 ^ 30 - 1 := rfl
  rw [lockOwner, UInt32.toNat_and, hmask, Nat.and_two_pow_sub_one_eq_mod]

/-- What a mask leaves of an abandoned lock word. -/
theorem abandoned_and (word mask : UInt32) :
    abandoned word &&& mask = word &&& (waitersBit &&& mask) ||| ownerDiedBit &&& mask := by
  rw [← UInt32.and_assoc]
  refine UInt32.toNat_inj.1 ?_
  simp only [abandoned, UInt32.toNat_and, UInt32.toNat_or, Nat.and_or_distrib_right]

/-- An abandoned lock has the waiters that it had. -/
theorem abandoned_and_waitersBit : abandoned word &&& waitersBit = word &&& waitersBit := by
  have hwaiters : waitersBit &&& waitersBit = waitersBit := rfl
  have hdied : ownerDiedBit &&& waitersBit = 0 := rfl
  rw [abandoned_and, hwaiters, hdied, UInt32.or_zero]

/-- An abandoned lock word says that its owner died. -/
theorem abandoned_and_ownerDiedBit : abandoned word &&& ownerDiedBit = ownerDiedBit := by
  have hwaiters : waitersBit &&& ownerDiedBit = 0 := rfl
  have hdied : ownerDiedBit &&& ownerDiedBit = ownerDiedBit := rfl
  rw [abandoned_and, hwaiters, hdied, UInt32.and_zero, UInt32.zero_or]

/-- An abandoned lock has no owner. -/
theorem lockOwner_abandoned : lockOwner (abandoned word) = 0 := by
  have hwaiters : waitersBit &&& ownerMask = 0 := rfl
  have hdied : ownerDiedBit &&& ownerMask = 0 := rfl
  rw [lockOwner, abandoned_and, hwaiters, hdied, UInt32.and_zero, UInt32.or_zero]

/-- Abandoning a lock word twice is abandoning it once. -/
theorem abandoned_abandoned : abandoned (abandoned word) = abandoned word := by
  rw [abandoned, abandoned_and_waitersBit, abandoned]

/-! ## Ids in lock words -/

namespace Pid

/-- A lock word cannot name the process: what it would hold of the id is what a lock without an
owner holds. -/
def Nameless (pid : Pid) : Prop :=
  (pid.slot : Nat) = 0 ∧ 2 ^ 22 ∣ pid.generation

/-- The owner bits of an id are its slot below the low bits of its generation. -/
theorem toNat_lockOwner (pid : Pid) :
    (lockOwner pid.raw).toNat = pid.generation % 2 ^ 22 * slotCount + pid.slot := by
  have hcount : slotCount = 256 := rfl
  rw [SyncKernel.toNat_lockOwner, generation, slot]
  dsimp only
  rw [hcount]
  omega

/-- An id leaves no owner bits exactly if a lock word cannot name it. -/
theorem lockOwner_eq_zero_iff : lockOwner pid.raw = 0 ↔ pid.Nameless := by
  rw [← UInt32.toNat_inj, toNat_lockOwner, UInt32.toNat_zero, Nat.add_eq_zero_iff,
    Nat.mul_eq_zero, or_iff_left (by decide), and_comm, Nameless, Nat.dvd_iff_mod_eq_zero]

/-- Ids with the same owner bits name the same slot. -/
theorem slot_eq_of_lockOwner {a b : Pid} (h : lockOwner a.raw = lockOwner b.raw) :
    a.slot = b.slot := by
  have hslot : ∀ pid : Pid, (lockOwner pid.raw).toNat % slotCount = pid.slot := fun pid => by
    rw [toNat_lockOwner, Nat.mul_add_mod', Nat.mod_eq_of_lt pid.slot.isLt]
  exact Fin.ext (by rw [← hslot, ← hslot, h])

end Pid

/-- Two processes of a table have different owner bits. -/
theorem ProcessTable.eq_of_lockOwner {t : ProcessTable} {a b : Pid} {p q : Process}
    (ha : t.get? a = some p) (hb : t.get? b = some q)
    (h : lockOwner a.raw = lockOwner b.raw) : a = b := by
  obtain ⟨hp, rfl⟩ := ProcessTable.get?_eq_some.1 ha
  obtain ⟨hq, rfl⟩ := ProcessTable.get?_eq_some.1 hb
  rw [Pid.slot_eq_of_lockOwner h, hq] at hp
  cases hp
  rfl

/-! ## Marking -/

namespace Memory

variable {m m' m'' : Memory} {s : SpaceId} {va : UInt64}

/-- A lock word stands at an address where user code may read and write. -/
structure LockWord (m : Memory) (s : SpaceId) (va : UInt64) (word : UInt32) : Prop where
  read : m.UserRange s .toRead va.toNat 4
  write : m.UserRange s .toWrite va.toNat 4
  holds : m.Holds s va.toNat (word32Bytes word)

/-- A lock word can be read where it stands. -/
theorem LockWord.userRead32 (lock : m.LockWord s va word) : m.userRead32 s va = .ok word := by
  have hread : m.userRead s va (word32Bytes word).length = .ok (word32Bytes word) :=
    userRead_of_holds lock.read.limit (fun i hi => grants_iff.1 (lock.read.grants i hi)) lock.holds
  rw [length_word32Bytes] at hread
  rw [Memory.userRead32, hread, Except.map, word32_word32Bytes]

/-- A write to a lock word is not refused, and then the new word stands there. -/
theorem LockWord.overwrite (lock : m.LockWord s va word) (made : m.Made) (word' : UInt32) :
    ∃ m', m.userWrite32 s va word' = .ok m' ∧
      m.Overwrites s va.toNat (word32Bytes word') m' ∧ m'.LockWord s va word' := by
  have hcheck : m.userCheck s va (word32Bytes word').length .toWrite = .ok () :=
    userCheck_iff.2 lock.write
  obtain ⟨m', hm'⟩ := exists_userWrite hcheck
  have hover := made.overwrites hm'
  have hrange : ∀ need, m.UserRange s need va.toNat 4 → m'.UserRange s need va.toNat 4 := by
    rw [hover.rest]
    exact fun need h => ⟨h.address, h.limit, h.grants⟩
  exact ⟨m', hm', hover, hrange _ lock.read, hrange _ lock.write, hover.holds⟩

/-- A lock word is compared by its owner bits, and is replaced if they are those of the id. -/
theorem LockWord.markOwnerDied? (lock : m.LockWord s va word) (pid : Pid) :
    m.markOwnerDied? s va pid = if lockOwner word = lockOwner pid.raw then
      (m.userWrite32 s va (abandoned word)).toOption else none := by
  unfold Memory.markOwnerDied? lockOwner abandoned
  rw [lock.userRead32]
  exact ite_not _ _ _

/-- A lock word is marked exactly if its owner bits are those of the id. Then an abandoned lock
stands in its place and nothing else changed, and it stands there still when the lock is marked
again. -/
structure MarksExactly (m : Memory) (s : SpaceId) (pid : Pid) (va : UInt64) (word : UInt32) :
    Prop where
  marked_iff : (∃ m', m.markOwnerDied? s va pid = some m') ↔ lockOwner word = lockOwner pid.raw
  marked : ∀ m', m.markOwnerDied? s va pid = some m' →
    m.Overwrites s va.toNat (word32Bytes (abandoned word)) m' ∧ m'.LockWord s va (abandoned word)
  again : ∀ m' m'', m.markOwnerDied? s va pid = some m' → m'.markOwnerDied? s va pid = some m'' →
    m''.LockWord s va (abandoned word)

/-- A lock word that is marked names the process, and an abandoned lock stands in its place. -/
theorem LockWord.marked (lock : m.LockWord s va word) (made : m.Made)
    (h : m.markOwnerDied? s va pid = some m') :
    lockOwner word = lockOwner pid.raw ∧ m'.Made ∧
      m.Overwrites s va.toNat (word32Bytes (abandoned word)) m' ∧
      m'.LockWord s va (abandoned word) := by
  obtain ⟨m₁, hwrite, hover, hlock⟩ := lock.overwrite made (abandoned word)
  rw [lock.markOwnerDied?, hwrite] at h
  split at h
  · next howner =>
    cases h
    exact ⟨howner, made.userWrite hwrite, hover, hlock⟩
  · cases h

/-- Any lock word is marked exactly as it should be. -/
theorem LockWord.marksExactly (lock : m.LockWord s va word) (made : m.Made) (pid : Pid) :
    m.MarksExactly s pid va word where
  marked_iff := by
    refine ⟨fun ⟨m', h⟩ => (lock.marked made h).1, fun h => ?_⟩
    obtain ⟨m', hwrite, -⟩ := lock.overwrite made (abandoned word)
    exact ⟨m', by rw [lock.markOwnerDied?, if_pos h, hwrite, Except.toOption]⟩
  marked m' h := (lock.marked made h).2.2
  again m' m'' h h' := by
    obtain ⟨-, made', -, lock'⟩ := lock.marked made h
    obtain ⟨-, -, -, lock''⟩ := lock'.marked made' h'
    rwa [abandoned_abandoned] at lock''

/-- What is marked for the id of a process. The owner bits decide; waiters are kept, the owner is
gone, and that it died is noted. Unless the id has no owner bits, only locks with an owner are
marked, and each of them once; an id without owner bits marks the free locks. No other process of
the table has the owner bits of the id. -/
theorem owner_mark_exact (made : m.Made) (lock : m.LockWord s va word) (pid : Pid) :
    m.MarksExactly s pid va word ∧
      (abandoned word &&& waitersBit = word &&& waitersBit ∧ lockOwner (abandoned word) = 0 ∧
        abandoned word &&& ownerDiedBit = ownerDiedBit) ∧
      (¬ pid.Nameless → ∀ m', m.markOwnerDied? s va pid = some m' →
        lockOwner word ≠ 0 ∧ lockOwner word = lockOwner pid.raw ∧
          m'.markOwnerDied? s va pid = none) ∧
      (pid.Nameless → ((∃ m', m.markOwnerDied? s va pid = some m') ↔ lockOwner word = 0)) ∧
      ∀ (t : ProcessTable) (p : Process) (other : Pid) (q : Process), t.get? pid = some p →
        t.get? other = some q → lockOwner other.raw = lockOwner pid.raw → other = pid := by
  have hexact := lock.marksExactly made pid
  refine ⟨hexact, ⟨abandoned_and_waitersBit, lockOwner_abandoned, abandoned_and_ownerDiedBit⟩,
    fun hnamed m' h => ?_, fun hnameless => ?_,
    fun t p other q hp hq => ProcessTable.eq_of_lockOwner hq hp⟩
  · have hpid : lockOwner pid.raw ≠ 0 := fun h₀ => hnamed (Pid.lockOwner_eq_zero_iff.1 h₀)
    obtain ⟨howner, -, -, lock'⟩ := lock.marked made h
    refine ⟨howner ▸ hpid, howner, ?_⟩
    -- the lock has no owner any more
    rw [lock'.markOwnerDied?, lockOwner_abandoned, if_neg hpid.symm]
  · rw [hexact.marked_iff, Pid.lockOwner_eq_zero_iff.2 hnameless]

/-- A word that user code may read and write is a lock word. -/
theorem lockWord_of_checks (read : m.userCheck s va 4 .toRead = .ok ())
    (write : m.userCheck s va 4 .toWrite = .ok ())
    (holds : m.bytes? s va.toNat 4 = some (word32Bytes word)) : m.LockWord s va word :=
  ⟨userCheck_iff.1 read, userCheck_iff.1 write, (bytes?_eq_some.1 holds).2⟩

/-- Two locks: somebody waits for the first, which the process in slot 5 has, and nobody has the
second, which is marked for an id without owner bits. -/
theorem owner_mark_exact_of_twoLocks : ∃ m m₁ m₂ : Memory, m.Made ∧
    m.LockWord 0 0x1000 0x80000105 ∧ ¬ (Pid.ofSlot 1 5).Nameless ∧
      m.markOwnerDied? 0 0x1000 (.ofSlot 1 5) = some m₁ ∧ m₁.LockWord 0 0x1000 0xc0000000 ∧
      m₁.markOwnerDied? 0 0x1000 (.ofSlot 1 5) = none ∧
    m.LockWord 0 0x1004 0 ∧ (Pid.ofSlot (2 ^ 22) 0).Nameless ∧
      m.markOwnerDied? 0 0x1004 (.ofSlot (2 ^ 22) 0) = some m₂ ∧
      m₂.LockWord 0 0x1004 0x40000000 := by
  have hplay : ((({} : Memory).map 0 0x1000 8 .userReadWrite).toOption.any fun m =>
      (m.store 0 0x1000 (word32Bytes 0x80000105)).toOption.any fun m =>
        (m.userCheck 0 0x1000 4 .toRead = .ok () ∧ m.userCheck 0 0x1000 4 .toWrite = .ok () ∧
          m.bytes? 0 0x1000 4 = some (word32Bytes 0x80000105)) ∧
        m.userCheck 0 0x1004 4 .toRead = .ok () ∧ m.userCheck 0 0x1004 4 .toWrite = .ok () ∧
          m.bytes? 0 0x1004 4 = some (word32Bytes 0)) = true := by
    decide +kernel
  obtain ⟨m₀, hmap, hplay⟩ := exists_of_any_toOption hplay
  obtain ⟨m, hstore, hplay⟩ := exists_of_any_toOption hplay
  obtain ⟨⟨hread, hwrite, hholds⟩, hread', hwrite', hholds'⟩ := of_decide_eq_true hplay
  have made : m.Made := .store (.map .empty hmap) hstore
  have taken : m.LockWord 0 0x1000 0x80000105 := lockWord_of_checks hread hwrite hholds
  have free : m.LockWord 0 0x1004 0 := lockWord_of_checks hread' hwrite' hholds'
  have hnamed : ¬ (Pid.ofSlot 1 5).Nameless := by
    unfold Pid.Nameless
    decide
  have hnameless : (Pid.ofSlot (2 ^ 22) 0).Nameless := by
    unfold Pid.Nameless
    decide
  obtain ⟨hexact, -, honce, -, -⟩ := owner_mark_exact made taken (.ofSlot 1 5)
  obtain ⟨hexact', -, -, hfree, -⟩ := owner_mark_exact made free (.ofSlot (2 ^ 22) 0)
  obtain ⟨m₁, hm₁⟩ := hexact.marked_iff.2 (by decide)
  obtain ⟨m₂, hm₂⟩ := (hfree hnameless).2 (by decide)
  exact ⟨m, m₁, m₂, made, taken, hnamed, hm₁, (hexact.marked m₁ hm₁).2, (honce hnamed m₁ hm₁).2.2,
    free, hnameless, hm₂, (hexact'.marked m₂ hm₂).2⟩

end Memory

end SyncKernel
