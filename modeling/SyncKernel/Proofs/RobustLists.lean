import SyncKernel.Proofs.UserAccess
import SyncKernel.Proofs.Words

/-!
# The walk along a list of locks

The list of locks of a process is in its memory, where it may be anything: it may run in circles,
with or without the head, and lead to places that cannot be read. The walk along it is told by the
places of the records that are visited (`Memory.RobustWalk`). From the head on, each record says
where the next one is, until as many were visited as may be, or one cannot be read, or one says that
the next is at 0 or at the head. Whatever the memory holds, there is such a walk
(`exists_robustWalk`), and the answer is made of the locks of its records in order
(`RobustWalk.walkRobust_eq`).

No more is read than that: a memory that answers the same at the places of the walk has the same
walk (`RobustWalk.congr`). A list that ends with 0 is visited as a whole, for it cannot lead back to
its head on the way (`EndingList.place_ne_head`).
-/

namespace SyncKernel.Memory

variable {m m' : Memory} {s s' : SpaceId} {head start place next next' lock lock' : UInt64}
  {bs : List UInt8} {limit n : Nat} {places locks : Nat → UInt64}

/-! ## Reading -/

/-- What is read does not depend on the address spaces that are switched in. -/
theorem userRead_enter (m : Memory) (t s : SpaceId) (va : UInt64) (len : Nat) :
    (m.enter t).userRead s va len = m.userRead s va len := by
  have hpages : ∀ need count page,
      ((m.enter t).enter s).pagesAllow s need page count =
        (m.enter s).pagesAllow s need page count := by
    intro need count
    induction count with
    | zero => exact fun _ => rfl
    | succ count ih =>
      intro page
      rw [pagesAllow, pagesAllow, ih]
      rfl
  have hbytes : ∀ len a, ((m.enter t).enter s).bytes? s a len = (m.enter s).bytes? s a len := by
    intro len
    induction len with
    | zero => exact fun _ => rfl
    | succ len ih =>
      intro a
      rw [bytes?, bytes?, ih]
      rfl
  simp only [userRead, check, load, hpages, hbytes]

/-- An address holds one list of bytes of a length. -/
theorem Holds.unique {a : Nat} {bs' : List UInt8} (h : m.Holds s a bs) (h' : m.Holds s a bs')
    (hlength : bs.length = bs'.length) : bs = bs' := by
  refine List.ext_getElem? fun i => ?_
  by_cases hi : i < bs.length
  · rw [← h i hi, h' i (hlength ▸ hi)]
  · rw [List.getElem?_eq_none (by omega), List.getElem?_eq_none (by omega)]

/-- Bytes that user code may read are there to be read. -/
theorem exists_userRead_iff {len : Nat} :
    (∃ bs, m.userRead s place len = .ok bs) ↔ m.UserRange s .toRead place.toNat len :=
  (readsExactly m s place len).succeeds.trans userCheck_iff

/-! ## Records -/

/-- At an address stands a record of a list of locks. It is memory that user code may read, and
holds where the next record is and where the lock is. -/
structure RobustRecord (m : Memory) (s : SpaceId) (place next lock : UInt64) : Prop where
  range : m.UserRange s .toRead place.toNat robustRecordSize
  holds : m.Holds s place.toNat (word64Bytes next ++ word64Bytes lock)

/-- A lock of a list counts if its address is one of an aligned word, and not 0. -/
def countsAsLock (lock : UInt64) : Bool :=
  lock ≠ 0 ∧ lock.toNat % 4 = 0

/-- A record is what is read at its place. -/
theorem robustRecord_iff : m.RobustRecord s place next lock ↔
    m.userRead s place robustRecordSize = .ok (word64Bytes next ++ word64Bytes lock) := by
  constructor
  · intro h
    obtain ⟨bs, hread, hlength, hholds⟩ := userRead_of_check (userCheck_iff.2 h.range)
    rw [hread, hholds.unique h.holds (by simp [hlength])]
  · intro hread
    exact ⟨exists_userRead_iff.1 ⟨_, hread⟩, ((readsExactly ..).bytes _ hread).2⟩

/-- There is no more than one record at an address. -/
theorem RobustRecord.unique (h : m.RobustRecord s place next lock)
    (h' : m.RobustRecord s place next' lock') : next = next' ∧ lock = lock' := by
  have hread := (robustRecord_iff.1 h).symm.trans (robustRecord_iff.1 h')
  obtain ⟨hnext, hlock⟩ := List.append_inj (Except.ok.inj hread) (by simp)
  have hword : ∀ w w' : UInt64, word64Bytes w = word64Bytes w' → w = w' := fun w w' e => by
    rw [← word64_word64Bytes_append w [], ← word64_word64Bytes_append w' [], e]
  exact ⟨hword _ _ hnext, hword _ _ hlock⟩

/-- There is a record wherever one can be read. -/
theorem exists_robustRecord (h : m.UserRange s .toRead place.toNat robustRecordSize) :
    ∃ next lock, m.RobustRecord s place next lock := by
  obtain ⟨bs, hread⟩ := exists_userRead_iff.2 h
  have hlength : bs.length = 16 := length_of_userRead hread
  have hnext : word64Bytes (word64 bs) = bs.take 8 := word64Bytes_word64 (by omega)
  have hlock : word64Bytes (word64 (bs.drop 8)) = bs.drop 8 := by
    rw [word64Bytes_word64 (by simp [hlength]), List.take_of_length_le (by simp [hlength])]
  refine ⟨word64 bs, word64 (bs.drop 8), robustRecord_iff.2 ?_⟩
  rw [hread, hnext, hlock, List.take_append_drop]

/-- Where a record cannot be read the walk ends. -/
theorem walkRobust_of_unreadable (fuel : Nat)
    (h : ¬ m.UserRange s .toRead place.toNat robustRecordSize) :
    m.walkRobust s head (fuel + 1) place = [] := by
  rw [walkRobust]
  split
  · rfl
  · next bs hread => exact absurd (exists_userRead_iff.1 ⟨bs, hread⟩) h

/-- A record is visited, and unless it says that the next one is at 0 or the head the walk goes on
there. -/
theorem walkRobust_of_record (fuel : Nat) (h : m.RobustRecord s place next lock) :
    m.walkRobust s head (fuel + 1) place = [lock].filter countsAsLock ++
      if next = 0 ∨ next = head then [] else m.walkRobust s head fuel next := by
  have hdrop : (word64Bytes next ++ word64Bytes lock).drop 8 = word64Bytes lock ++ [] := by
    rw [List.drop_left' (length_word64Bytes next), List.append_nil]
  rw [walkRobust, robustRecord_iff.1 h]
  dsimp only
  rw [word64_word64Bytes_append, hdrop, word64_word64Bytes_append]
  by_cases hlock : lock ≠ 0 ∧ lock.toNat % 4 = 0
  · rw [if_pos hlock, List.filter_cons_of_pos (by simpa [countsAsLock] using hlock)]
    rfl
  · rw [if_neg hlock, List.filter_cons_of_neg (by simpa [countsAsLock] using hlock)]
    rfl

/-! ## Walks -/

/-- A walk from a place on along a list with a head visits the records at `n` places, and comes to
the place behind them. It visits no more than `limit`, and after the first one none that is at 0 or
the head; and it does not end before it has to. -/
structure RobustWalk (m : Memory) (s : SpaceId) (head : UInt64) (limit : Nat) (start : UInt64)
    (n : Nat) (places locks : Nat → UInt64) : Prop where
  start : places 0 = start
  record : ∀ i < n, m.RobustRecord s (places i) (places (i + 1)) (locks i)
  inner : ∀ i, 0 < i → i < n → places i ≠ 0 ∧ places i ≠ head
  bound : n ≤ limit
  stop : n = limit ∨ ¬ m.UserRange s .toRead (places n).toNat robustRecordSize ∨
    0 < n ∧ (places n = 0 ∨ places n = head)

/-- What is behind the first record of a walk is a walk. -/
theorem RobustWalk.tail (h : m.RobustWalk s head (limit + 1) start (n + 1) places locks)
    (hnext : ¬ (places 1 = 0 ∨ places 1 = head)) :
    m.RobustWalk s head limit (places 1) n (fun i => places (i + 1)) fun i => locks (i + 1) where
  start := rfl
  record i hi := h.record (i + 1) (by omega)
  inner i hpos hi := h.inner (i + 1) (by omega) (by omega)
  bound := by have := h.bound; omega
  stop := by
    rcases h.stop with hstop | hstop | ⟨-, hstop⟩
    · exact .inl (by omega)
    · exact .inr (.inl hstop)
    · rcases n.eq_zero_or_pos with rfl | hn
      · exact absurd hstop hnext
      · exact .inr (.inr ⟨hn, hstop⟩)

/-- A walk may begin one record earlier. -/
theorem RobustWalk.cons (h : m.RobustWalk s head limit next n places locks)
    (hrecord : m.RobustRecord s start next lock) (hnext : ¬ (next = 0 ∨ next = head)) :
    m.RobustWalk s head (limit + 1) start (n + 1) (fun | 0 => start | i + 1 => places i)
      (fun | 0 => lock | i + 1 => locks i) where
  start := rfl
  record i hi := by
    obtain rfl := h.start
    cases i with
    | zero => exact hrecord
    | succ i => exact h.record i (by omega)
  inner i hpos hi := by
    obtain rfl := h.start
    obtain ⟨i, rfl⟩ : ∃ j, i = j + 1 := ⟨i - 1, by omega⟩
    cases i with
    | zero => exact not_or.1 hnext
    | succ i => exact h.inner (i + 1) (by omega) (by omega)
  bound := by have := h.bound; omega
  stop := by
    rcases h.stop with hstop | hstop | ⟨hn, hstop⟩
    · exact .inl (by omega)
    · exact .inr (.inl hstop)
    · exact .inr (.inr ⟨by omega, hstop⟩)

/-- Whatever the memory holds, there is a walk from every place. -/
theorem exists_robustWalk (m : Memory) (s : SpaceId) (head : UInt64) (limit : Nat) :
    ∀ start, ∃ n places locks, m.RobustWalk s head limit start n places locks := by
  induction limit with
  | zero =>
    exact fun start => ⟨0, fun _ => start, fun _ => 0, rfl, nofun, nofun, le_rfl, .inl rfl⟩
  | succ limit ih =>
    intro start
    by_cases hread : m.UserRange s .toRead start.toNat robustRecordSize
    · obtain ⟨next, lock, hrecord⟩ := exists_robustRecord hread
      by_cases hnext : next = 0 ∨ next = head
      · refine ⟨1, fun | 0 => start | _ + 1 => next, fun _ => lock, rfl, ?_, ?_, by omega,
          .inr (.inr ⟨one_pos, hnext⟩)⟩
        · intro i hi
          obtain rfl : i = 0 := by omega
          exact hrecord
        · exact fun i hpos hi => absurd hi (by omega)
      · obtain ⟨n, places, locks, h⟩ := ih next
        exact ⟨n + 1, _, _, h.cons hrecord hnext⟩
    · exact ⟨0, fun _ => start, fun _ => 0, rfl, nofun, nofun, Nat.zero_le _, .inr (.inl hread)⟩

/-- The answer is the locks of the records that are visited. -/
theorem RobustWalk.walkRobust_eq (h : m.RobustWalk s head limit start n places locks) :
    m.walkRobust s head limit start = ((List.range n).map locks).filter countsAsLock := by
  induction limit generalizing start n places locks with
  | zero =>
    obtain rfl : n = 0 := Nat.le_zero.1 h.bound
    rfl
  | succ limit ih =>
    obtain rfl := h.start
    cases n with
    | zero =>
      rcases h.stop with hstop | hstop | ⟨hn, -⟩
      · cases hstop
      · exact walkRobust_of_unreadable limit hstop
      · exact absurd hn (lt_irrefl 0)
    | succ n =>
      have hrest : (if places 1 = 0 ∨ places 1 = head then []
          else m.walkRobust s head limit (places 1)) =
          ((List.range n).map fun i => locks (i + 1)).filter countsAsLock := by
        split
        · next hnext =>
          -- the walk went on behind the first record only if it had to
          obtain rfl : n = 0 := by
            by_contra hn
            obtain ⟨hzero, hhead⟩ := h.inner 1 one_pos (by omega)
            exact hnext.elim hzero hhead
          rfl
        · next hnext => exact ih (h.tail hnext)
      rw [walkRobust_of_record limit (h.record 0 n.succ_pos), hrest, List.range_succ_eq_map,
        List.map_cons, List.map_map, ← List.filter_append, List.singleton_append]
      rfl

/-- A memory that answers the same where the records of a walk are has the same walk. -/
theorem RobustWalk.congr (h : m.RobustWalk s head limit start n places locks)
    (same : ∀ i < limit, i ≤ n → m'.userRead s' (places i) robustRecordSize =
      m.userRead s (places i) robustRecordSize) :
    m'.RobustWalk s' head limit start n places locks where
  start := h.start
  record i hi := by
    have hread := same i (hi.trans_le h.bound) hi.le
    exact robustRecord_iff.2 (hread.trans (robustRecord_iff.1 (h.record i hi)))
  inner := h.inner
  bound := h.bound
  stop := by
    rcases h.stop with hstop | hstop | hstop
    · exact .inl hstop
    · rcases h.bound.eq_or_lt with heq | hlt
      · exact .inl heq
      · refine .inr (.inl ?_)
        rwa [← exists_userRead_iff, same n hlt le_rfl, exists_userRead_iff]
    · exact .inr (.inr hstop)

/-! ## Lists that end -/

/-- A list with a head has `n` records, the last of which says that the next one is at 0. -/
structure EndingList (m : Memory) (s : SpaceId) (head : UInt64) (n : Nat)
    (places locks : Nat → UInt64) : Prop where
  start : places 0 = head
  record : ∀ i < n, m.RobustRecord s (places i) (places (i + 1)) (locks i)
  inner : ∀ i, 0 < i → i < n → places i ≠ 0
  stop : 0 < n ∧ places n = 0

namespace EndingList

variable (h : m.EndingList s head n places locks)
include h

/-- A list that came back to its head would go round without an end. -/
theorem place_ne_head {i : Nat} (hpos : 0 < i) (hi : i < n) : places i ≠ head := by
  intro hhead
  have again : ∀ j, i + j ≤ n → places (i + j) = places j := by
    intro j
    induction j with
    | zero => exact fun _ => hhead.trans h.start.symm
    | succ j ih =>
      intro hj
      have hrecord := h.record (i + j) (by omega)
      rw [ih (by omega)] at hrecord
      exact (hrecord.unique (h.record j (by omega))).1
  have hlast : places n = places (n - i) := by
    rw [← again (n - i) (by omega), Nat.add_sub_cancel' hi.le]
  exact h.inner (n - i) (by omega) (by omega) (hlast ▸ h.stop.2)

/-- A list that ends is visited as a whole if it is not too long. -/
theorem robustWalk (hn : n ≤ limit) : m.RobustWalk s head limit head n places locks where
  start := h.start
  record := h.record
  inner i hpos hi := ⟨h.inner i hpos hi, h.place_ne_head hpos hi⟩
  bound := hn
  stop := .inr (.inr ⟨h.stop.1, .inl h.stop.2⟩)

end EndingList

/-! ## The answer -/

/-- The greatest number of records of a list that are visited. -/
def walkLimit (list : RobustList) : Nat :=
  min list.length.toNat robustLimit

/-- Whatever the memory holds, the locks of a list are those of the records of a walk along it, in
order. No memory is looked at but that of the records that are visited and, if it is not the last
that may be, of the place behind them; a list that ends with 0 is visited as a whole unless it is
too long; and the memory is left as it was. -/
theorem robustLocks_of_walk (m : Memory) (s : SpaceId) (list : RobustList) :
    (∃ n places locks, m.RobustWalk s list.head (walkLimit list) list.head n places locks) ∧
    (∀ n places locks, m.RobustWalk s list.head (walkLimit list) list.head n places locks →
      m.robustLocks s list = ((List.range n).map locks).filter countsAsLock ∧
      ∀ (m' : Memory) (s' : SpaceId),
        (∀ i < walkLimit list, i ≤ n → m'.userRead s' (places i) robustRecordSize =
          m.userRead s (places i) robustRecordSize) →
        m'.robustLocks s' list = m.robustLocks s list) ∧
    (∀ n places locks, m.EndingList s list.head n places locks → n ≤ walkLimit list →
      m.robustLocks s list = ((List.range n).map locks).filter countsAsLock) ∧
    m.access s (fun m => (m.robustLocks s list, m)) = (m.robustLocks s list, m) := by
  refine ⟨exists_robustWalk m s list.head _ list.head,
    fun n places locks h => ⟨h.walkRobust_eq, ?_⟩,
    fun n places locks h hn => (h.robustWalk hn).walkRobust_eq, ?_⟩
  · intro m' s' same
    exact (h.congr same).walkRobust_eq.trans h.walkRobust_eq.symm
  · obtain ⟨n, places, locks, h⟩ := exists_robustWalk m s list.head (walkLimit list) list.head
    have henter : (m.enter s).robustLocks s list = m.robustLocks s list :=
      (h.congr fun _ _ _ => userRead_enter m s s _ _).walkRobust_eq.trans h.walkRobust_eq.symm
    rw [access, henter, leave_enter]

/-- A page with a list whose second record says that the next one is itself, and behind it a list of
one record. -/
def circleAndLine : Memory :=
  ((mapPage {} 0 .userReadWrite 1).setBytes? 0 0x1000
    ([0x1010, 0x2000, 0x1010, 0x2004, 0, 0x2008].flatMap word64Bytes)).getD default

/-- If four records may be visited then the record that is next to itself is visited three times.
The other list has one lock. -/
theorem robustLocks_of_walk_of_circle :
    circleAndLine.robustLocks 0 ⟨0x1000, 4⟩ = [0x2000, 0x2004, 0x2004, 0x2004] ∧
      circleAndLine.robustLocks 0 ⟨0x1020, 4⟩ = [0x2008] := by
  have hread : circleAndLine.userRead 0 0x1000 robustRecordSize =
        .ok (word64Bytes 0x1010 ++ word64Bytes 0x2000) ∧
      circleAndLine.userRead 0 0x1010 robustRecordSize =
        .ok (word64Bytes 0x1010 ++ word64Bytes 0x2004) ∧
      circleAndLine.userRead 0 0x1020 robustRecordSize =
        .ok (word64Bytes 0 ++ word64Bytes 0x2008) := by
    decide +kernel
  have hcircle : circleAndLine.RobustWalk 0 0x1000 (walkLimit ⟨0x1000, 4⟩) 0x1000 4
      (fun | 0 => 0x1000 | _ + 1 => 0x1010) (fun | 0 => 0x2000 | _ + 1 => 0x2004) := by
    constructor
    case start => rfl
    case record =>
      intro i _
      cases i with
      | zero => exact robustRecord_iff.2 hread.1
      | succ i => exact robustRecord_iff.2 hread.2.1
    case inner =>
      intro i hpos _
      cases i with
      | zero => cases hpos
      | succ i => exact ⟨by simp, by simp⟩
    case bound => decide
    case stop => exact .inl (by decide)
  have hline : circleAndLine.EndingList 0 0x1020 1 (fun | 0 => 0x1020 | _ + 1 => 0)
      fun _ => 0x2008 := by
    refine ⟨rfl, fun i hi => ?_, fun i hpos hi => absurd hi (by omega), by decide, rfl⟩
    obtain rfl : i = 0 := by omega
    exact robustRecord_iff.2 hread.2.2
  obtain ⟨-, hlocks, -, -⟩ := robustLocks_of_walk circleAndLine 0 ⟨0x1000, 4⟩
  obtain ⟨-, -, hends, -⟩ := robustLocks_of_walk circleAndLine 0 ⟨0x1020, 4⟩
  rw [(hlocks _ _ _ hcircle).1, hends _ _ _ hline (by decide)]
  decide

end SyncKernel.Memory
