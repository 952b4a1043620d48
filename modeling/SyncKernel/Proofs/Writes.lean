import SyncKernel.Futex.Robust
import SyncKernel.Proofs.UserMemory

/-!
# What a write changes

Writes seen from the physical bytes, whichever pages lead to them: address spaces may share frames,
and nothing is asked of how the pages came about. `Memory.Wrote` says of two memories that they
differ in bytes only, and that each byte that differs was reached through a page that user code may
write, at an address of a given kind. It is kept by one write after another, and a write by the
kernel to user memory is one (`Wrote.of_userWrite`).

An access switches an address space in and out again, and leaves those that are switched in as they
were, refused or not (`access_userRead`, `access_userWrite`).

Marking a lock is told in full (`Memory.Rewrites`): the lock word is replaced and no other byte
changes. That the word is aligned is what keeps it within a page. `Memory.Released` is one mark
after another, each of a lock that its owner leaves (`Memory.Owned`).
-/

namespace SyncKernel.Memory

variable {m m' m₁ : Memory} {s : SpaceId} {a x : Nat} {va : UInt64} {bs : List UInt8}
  {R S : SpaceId → Nat → Prop}

/-- The byte at a physical address. -/
def cell (m : Memory) (x : Nat) : UInt8 :=
  m.bytes.getD x 0

/-- User code may write at an address: it is user memory, on a page that is in use, open to user
code and may be written. -/
def UserWritable (m : Memory) (s : SpaceId) (a : Nat) : Prop :=
  a < userLimit ∧ m.Allows s (PageFlags.toWrite.union .userPage) a

/-- The addresses of `len` bytes from `va` on. -/
def span (va : UInt64) (len : Nat) : Set Nat :=
  Set.Ico va.toNat (va.toNat + len)

/-- The addresses of the set `S` in the space `s`. -/
def Within (s : SpaceId) (S : Set Nat) : SpaceId → Nat → Prop :=
  fun t a => t = s ∧ a ∈ S

/-- The memories differ in bytes only, and each byte that differs is reached at an address with the
property `R` that user code may write. -/
structure Wrote (R : SpaceId → Nat → Prop) (m m' : Memory) : Prop where
  rest : m' = { m with bytes := m'.bytes }
  reached : ∀ x, m'.cell x ≠ m.cell x →
    ∃ s a, R s a ∧ m.UserWritable s a ∧ m.physical? s a = some x

namespace Wrote

theorem refl (m : Memory) : Wrote R m m :=
  ⟨rfl, fun _ h => absurd rfl h⟩

theorem of_eq (h : m' = m) : Wrote R m m' := by
  rw [h]
  exact refl m

/-- The bound on the places that were written to may be widened. -/
theorem mono (h : Wrote R m m') (hRS : ∀ s a, R s a → S s a) : Wrote S m m' :=
  ⟨h.rest, fun x hx =>
    let ⟨s, a, hR, hw⟩ := h.reached x hx
    ⟨s, a, hRS s a hR, hw⟩⟩

/-- Writes lead to the same places whatever was written before. -/
theorem trans (h : Wrote R m m₁) (h' : Wrote R m₁ m') : Wrote R m m' := by
  have hrest : m' = { m with bytes := m'.bytes } := by
    rw [h'.rest, h.rest]
  refine ⟨hrest, fun x hx => ?_⟩
  by_cases hx₁ : m₁.cell x = m.cell x
  · have hx' : m'.cell x ≠ m₁.cell x := hx₁ ▸ hx
    have hreached := h'.reached x hx'
    rw [h.rest] at hreached
    exact hreached
  · exact h.reached x hx₁

end Wrote

/-! ## Bytes -/

/-- Setting a byte changes its own place only. -/
theorem cell_insert {b : UInt8} {y : Nat} :
    ({ m with bytes := m.bytes.insert x b } : Memory).cell y = if x = y then b else m.cell y := by
  simp only [cell, Std.ExtTreeMap.getD_insert, Std.LawfulEqCmp.compare_eq_iff_eq]

/-- A byte that a write changes is behind one of its addresses. -/
theorem exists_of_cell_setBytes? (h : m.setBytes? s a bs = some m') (hx : m'.cell x ≠ m.cell x) :
    ∃ i < bs.length, m.physical? s (a + i) = some x := by
  induction bs generalizing m a with
  | nil =>
    cases h
    exact absurd rfl hx
  | cons b bs ih =>
    rw [setBytes?] at h
    split at h
    · next y hy =>
      by_cases hyx : y = x
      · exact ⟨0, by simp, hyx ▸ hy⟩
      · have hx' : m'.cell x ≠ ({ m with bytes := m.bytes.insert y b } : Memory).cell x := by
          rwa [cell_insert, if_neg hyx]
        obtain ⟨i, hi, hphys⟩ := ih h hx'
        have hsucc : a + 1 + i = a + (i + 1) := by omega
        exact ⟨i + 1, by simpa using hi, hsucc ▸ hphys⟩
    · cases h

/-- The rest of a row of places is a row. -/
theorem row_tail {b : UInt8}
    (hrow : ∀ i < (b :: bs).length, m.physical? s (a + i) = some (x + i)) :
    ∀ i < bs.length, m.physical? s (a + 1 + i) = some (x + 1 + i) := by
  intro i hi
  have ha : a + 1 + i = a + (i + 1) := by omega
  have hx : x + 1 + i = x + (i + 1) := by omega
  rw [ha, hx]
  exact hrow (i + 1) (by simpa using hi)

/-- Bytes that are written to physical addresses in a row stand there. -/
theorem cell_setBytes? (h : m.setBytes? s a bs = some m')
    (hrow : ∀ i < bs.length, m.physical? s (a + i) = some (x + i)) {i : Nat}
    (hi : i < bs.length) : m'.cell (x + i) = bs[i] := by
  induction bs generalizing m a x i with
  | nil => exact absurd hi (Nat.not_lt_zero i)
  | cons b bs ih =>
    have hx : m.physical? s a = some x := hrow 0 (by simp)
    rw [setBytes?, hx] at h
    dsimp only at h
    have hrow' := row_tail hrow
    cases i with
    | zero =>
      -- the first byte is not written again
      have hfirst : ({ m with bytes := m.bytes.insert x b } : Memory).cell x = b := by
        rw [cell_insert, if_pos rfl]
      rw [Nat.add_zero, List.getElem_cons_zero, ← hfirst]
      by_contra hne
      obtain ⟨j, hj, hphys⟩ := exists_of_cell_setBytes? h hne
      have hagain := (hrow' j hj).symm.trans hphys
      simp only [Option.some.injEq] at hagain
      omega
    | succ i =>
      have hsucc : x + (i + 1) = x + 1 + i := by omega
      rw [hsucc, List.getElem_cons_succ]
      exact ih h hrow' (by simpa using hi)

/-- What is written does not depend on the address spaces that are switched in. -/
theorem setBytes?_enter (m : Memory) (t s : SpaceId) (a : Nat) (bs : List UInt8) :
    (m.enter t).setBytes? s a bs = (m.setBytes? s a bs).map (enter · t) := by
  induction bs generalizing m a with
  | nil => rfl
  | cons b bs ih =>
    rw [setBytes?, setBytes?]
    have hphys : (m.enter t).physical? s a = m.physical? s a := rfl
    rw [hphys]
    cases m.physical? s a with
    | none => rfl
    | some x => exact ih { m with bytes := m.bytes.insert x b } (a + 1)

/-- A write to user memory that is not refused puts its bytes where user code may write. -/
theorem setBytes?_of_userWrite (h : m.userWrite s va bs = .ok m') :
    (∀ i < bs.length, m.UserWritable s (va.toNat + i)) ∧ m.setBytes? s va.toNat bs = some m' := by
  unfold userWrite at h
  split at h
  · cases h
  next hcheck =>
  obtain ⟨hlimit, hall⟩ := check_eq_ok.1 hcheck
  refine ⟨fun i hi => ⟨by omega, hall i hi⟩, ?_⟩
  cases hstore : (m.enter s).store s va bs with
  | error e =>
    rw [hstore] at h
    cases h
  | ok m₁ =>
    rw [hstore] at h
    cases h
    have hset := (store_eq_ok.1 hstore).2
    rw [setBytes?_enter, Option.map_eq_some_iff] at hset
    obtain ⟨m₂, hm₂, rfl⟩ := hset
    rw [hm₂, leave_enter]

/-- A write to user memory changes bytes at its own addresses. -/
theorem Wrote.of_userWrite (h : m.userWrite s va bs = .ok m') :
    Wrote (Within s (span va bs.length)) m m' := by
  obtain ⟨hwritable, hset⟩ := setBytes?_of_userWrite h
  refine ⟨setBytes?_eq_some hset, fun x hx => ?_⟩
  obtain ⟨i, hi, hphys⟩ := exists_of_cell_setBytes? hset hx
  exact ⟨s, va.toNat + i, ⟨rfl, by omega, by omega⟩, hwritable i hi, hphys⟩

/-! ## Switching address spaces -/

/-- An access as it takes place: an address space is switched in, something is done that may fail,
and the space is switched out again. -/
def access {α : Type} (m : Memory) (s : SpaceId) (f : Memory → α × Memory) : α × Memory :=
  ((f (m.enter s)).1, (f (m.enter s)).2.leave)

/-- A read is an access that leaves the memory as it was, whether or not it is refused. -/
theorem access_userRead (m : Memory) (s : SpaceId) (va : UInt64) (len : Nat) :
    m.access s (fun m => (m.check s va len .toRead >>= fun _ => m.load s va len, m)) =
      (m.userRead s va len, m) := by
  simp only [access, userRead, leave_enter]
  cases (m.enter s).check s va len .toRead <;> rfl

/-- A write is an access that leaves the memory as it was if it is refused. -/
theorem access_userWrite (m : Memory) (s : SpaceId) (va : UInt64) (bs : List UInt8) :
    m.access s (fun m =>
        match m.check s va bs.length .toWrite >>= fun _ => m.store s va bs with
        | .ok m' => ((.ok () : Except Errno Unit), m')
        | .error e => (.error e, m)) =
      match m.userWrite s va bs with
      | .ok m' => (.ok (), m')
      | .error e => (.error e, m) := by
  simp only [access, userWrite]
  cases (m.enter s).check s va bs.length .toWrite with
  | error e => rfl
  | ok _ =>
    simp only [bind, Except.bind]
    cases (m.enter s).store s va bs <;> rfl

/-! ## Pages -/

/-- Addresses up to the end of a page are on that page. -/
theorem pageAt?_add {i : Nat} (h : a % pageSize + i < pageSize) :
    m.pageAt? s (a + i) = m.pageAt? s a := by
  have hpage : (a + i) / pageSize = a / pageSize := by
    simp only [pageSize] at h ⊢
    omega
  rw [pageAt?, pageAt?, hpage]

/-- The bytes of a page stand in a row. -/
theorem physical?_add {y i : Nat} (h : a % pageSize + i < pageSize)
    (hy : m.physical? s a = some y) : m.physical? s (a + i) = some (y + i) := by
  obtain ⟨p, hp, rfl⟩ := Option.map_eq_some_iff.1 hy
  have hoffset : (a + i) % pageSize = a % pageSize + i := by
    simp only [pageSize] at h ⊢
    omega
  rw [physical?, pageAt?_add h, hp, Option.map_some, hoffset, Nat.add_assoc]

/-! ## Lock words -/

/-- The word at an address is replaced, and no other byte changes. -/
structure Rewrites (s : SpaceId) (va : UInt64) (word : UInt32) (m m' : Memory) : Prop where
  rest : m' = { m with bytes := m'.bytes }
  holds : m'.peek32? s va = some word
  others : ∀ x, (∀ i < 4, m.physical? s (va.toNat + i) ≠ some x) → m'.cell x = m.cell x

/-- At an address of user memory that user code may read and write there is a lock word, and the
process `pid` owns the lock. -/
structure Owned (m : Memory) (s : SpaceId) (pid : Pid) (va : UInt64) (word : UInt32) : Prop where
  user : va.toNat + 4 ≤ userLimit
  page : m.Allows s .userReadWrite va.toNat
  holds : m.peek32? s va = some word
  owner : word &&& ownerMask = pid.raw &&& ownerMask

/-- For each of a list of locks in turn, the process `pid` gave the lock back if it owned it: what
is left in the lock word is whether somebody waits for the lock, and that its owner died. -/
inductive Released (s : SpaceId) (pid : Pid) : List UInt64 → Memory → Memory → Prop
  | nil {m : Memory} : Released s pid [] m m
  | mark {m m₁ m' : Memory} {va : UInt64} {locks : List UInt64} {word : UInt32}
      (owned : m.Owned s pid va word)
      (marked : Rewrites s va (word &&& waitersBit ||| ownerDiedBit) m m₁)
      (rest : Released s pid locks m₁ m') : Released s pid (va :: locks) m m'
  | skip {m m' : Memory} {va : UInt64} {locks : List UInt64}
      (other : ∀ word, ¬ m.Owned s pid va word) (rest : Released s pid locks m m') :
      Released s pid (va :: locks) m m'

/-- A page is readable and writable for user code if it is each of them. -/
theorem userReadWrite_contains {f : PageFlags} : f.contains .userReadWrite = true ↔
    f.contains (PageFlags.toRead.union .userPage) = true ∧
      f.contains (PageFlags.toWrite.union .userPage) = true := by
  simp only [PageFlags.contains, PageFlags.userReadWrite, PageFlags.toRead, PageFlags.toWrite,
    PageFlags.userPage, PageFlags.union]
  grind

/-- An address may be read and written exactly if it may be read and may be written. -/
theorem allows_userReadWrite : m.Allows s .userReadWrite a ↔
    m.Allows s (PageFlags.toRead.union .userPage) a ∧
      m.Allows s (PageFlags.toWrite.union .userPage) a := by
  constructor
  · rintro ⟨p, hp, hf⟩
    exact ⟨⟨p, hp, (userReadWrite_contains.1 hf).1⟩, ⟨p, hp, (userReadWrite_contains.1 hf).2⟩⟩
  · rintro ⟨⟨p, hp, hf⟩, ⟨q, hq, hf'⟩⟩
    cases hp.symm.trans hq
    exact ⟨p, hp, userReadWrite_contains.2 ⟨hf, hf'⟩⟩

section
variable (aligned : va.toNat % 4 = 0)
include aligned

/-- An aligned word is on one page. -/
theorem inPage_aligned {i : Nat} (hi : i < 4) : va.toNat % pageSize + i < pageSize := by
  simp only [pageSize]
  omega

/-- The four bytes of an aligned word are on one page. -/
theorem allows_aligned {need : PageFlags} {i : Nat} (hi : i < 4)
    (h : m.Allows s need va.toNat) : m.Allows s need (va.toNat + i) := by
  obtain ⟨p, hp, hflags⟩ := h
  exact ⟨p, (pageAt?_add (inPage_aligned aligned hi)).trans hp, hflags⟩

/-- Whether an aligned word may be accessed is a matter of one page. -/
theorem check_aligned {need : PageFlags} : (m.enter s).check s va 4 need = .ok () ↔
    va.toNat + 4 ≤ userLimit ∧ m.Allows s (need.union .userPage) va.toNat := by
  rw [check_eq_ok]
  refine and_congr_right fun _ => ⟨fun h => h 0 (by decide), fun h i hi => ?_⟩
  exact allows_aligned aligned hi h

/-- An aligned word that is read. -/
theorem userRead32_aligned {word : UInt32} : m.userRead32 s va = .ok word ↔
    va.toNat + 4 ≤ userLimit ∧ m.Allows s (PageFlags.toRead.union .userPage) va.toNat ∧
      m.peek32? s va = some word := by
  have hload : (m.enter s).load s va 4 = m.load s va 4 := rfl
  have hcheck : (m.enter s).check s va 4 .toRead = .ok () ↔
      va.toNat + 4 ≤ userLimit ∧ m.Allows s (PageFlags.toRead.union .userPage) va.toNat :=
    check_aligned aligned
  rw [userRead32, userRead, peek32?, ← and_assoc, ← hcheck, hload]
  cases (m.enter s).check s va 4 .toRead with
  | error e => simp [Except.map]
  | ok _ => cases m.load s va 4 <;> simp [Except.map, Except.toOption]

/-- An aligned word that is written replaces the one before. -/
theorem userWrite32_aligned {word : UInt32} (h : m.userWrite32 s va word = .ok m') :
    Rewrites s va word m m' := by
  obtain ⟨hwritable, hset⟩ := setBytes?_of_userWrite h
  rw [length_word32Bytes] at hwritable
  have hrest := setBytes?_eq_some hset
  refine ⟨hrest, ?_, fun x hx => ?_⟩
  · obtain ⟨hlimit, hallows⟩ := hwritable 0 (by decide)
    obtain ⟨y, hy⟩ := hallows.physical?
    have hrow : ∀ i < (word32Bytes word).length, m.physical? s (va.toNat + i) = some (y + i) :=
      fun i hi => physical?_add (inPage_aligned aligned hi) hy
    have hphys : ∀ a, m'.physical? s a = m.physical? s a := by
      intro a
      rw [hrest]
      rfl
    have hholds : m'.Holds s va.toNat (word32Bytes word) := by
      intro i hi
      rw [byte?, hphys, hrow i hi, Option.map_some, List.getElem?_eq_getElem hi]
      exact congrArg some (cell_setBytes? hset hrow hi)
    have hsize : va.toNat + 4 < UInt64.size := by
      have hlast := (hwritable 3 (by decide)).1
      have hlimit : userLimit < UInt64.size - 4 := by decide
      omega
    have hbytes : m'.bytes? s va.toNat 4 = some (word32Bytes word) := hholds.bytes?
    rw [peek32?, load, if_pos hsize, hbytes]
    exact congrArg some (word32_word32Bytes word)
  · by_contra hne
    obtain ⟨i, hi, hphys⟩ := exists_of_cell_setBytes? hset hne
    exact hx i hi hphys

/-- A lock that is marked belongs to the process, and its word is replaced. -/
theorem markOwnerDied?_eq_some {pid : Pid} (h : m.markOwnerDied? s va pid = some m') :
    ∃ word, m.Owned s pid va word ∧
      Rewrites s va (word &&& waitersBit ||| ownerDiedBit) m m' := by
  unfold markOwnerDied? at h
  split at h
  · cases h
  next word hread =>
  split at h
  · cases h
  next howner =>
  obtain ⟨huser, hread, hholds⟩ := (userRead32_aligned aligned).1 hread
  cases hw : m.userWrite32 s va (word &&& waitersBit ||| ownerDiedBit) with
  | error e =>
    rw [hw] at h
    cases h
  | ok m₁ =>
    rw [hw] at h
    cases h
    obtain ⟨-, hwrite⟩ := (setBytes?_of_userWrite hw).1 0 (by rw [length_word32Bytes]; decide)
    exact ⟨word, ⟨huser, allows_userReadWrite.2 ⟨hread, hwrite⟩, hholds, not_not.1 howner⟩,
      userWrite32_aligned aligned hw⟩

/-- A lock that belongs to the process is marked. -/
theorem markOwnerDied?_eq_none {pid : Pid} (h : m.markOwnerDied? s va pid = none) (word : UInt32) :
    ¬ m.Owned s pid va word := fun owned => by
  obtain ⟨hread, hwrite⟩ := allows_userReadWrite.1 owned.page
  have hword : m.userRead32 s va = .ok word :=
    (userRead32_aligned aligned).2 ⟨owned.user, hread, owned.holds⟩
  have hcheck : (m.enter s).check s va 4 .toWrite = .ok () :=
    (check_aligned aligned).2 ⟨owned.user, hwrite⟩
  obtain ⟨m₁, hm₁⟩ : ∃ m₁, m.userWrite32 s va (word &&& waitersBit ||| ownerDiedBit) = .ok m₁ := by
    refine exists_userWrite ?_
    rwa [length_word32Bytes]
  unfold markOwnerDied? at h
  rw [hword] at h
  simp [owned.owner, hm₁, Except.toOption] at h

end

/-- The locks in a list are aligned words. -/
theorem aligned_of_mem_walkRobust {head : UInt64} : ∀ {fuel : Nat} {current va : UInt64},
    va ∈ m.walkRobust s head fuel current → va.toNat % 4 = 0
  | 0, _, _, h => nomatch h
  | fuel + 1, current, va, h => by
    rw [walkRobust] at h
    split at h
    · cases h
    dsimp only at h
    have hrest : ∀ {next : UInt64} {c : Prop} [Decidable c],
        va ∈ (if c then [] else m.walkRobust s head fuel next) → va.toNat % 4 = 0 := by
      intro next c _ hmem
      split at hmem
      · cases hmem
      · exact aligned_of_mem_walkRobust hmem
    split at h
    · next hlock =>
      rcases List.mem_cons.1 h with rfl | h
      · exact hlock.2
      · exact hrest h
    · exact hrest h

/-- The addresses of the bytes of a list of locks. -/
def lockWords (locks : List UInt64) : Set Nat :=
  {a | ∃ va ∈ locks, va.toNat % 4 = 0 ∧ a ∈ span va 4}

/-- More locks have more lock words. -/
theorem lockWords_mono {locks locks' : List UInt64} (h : locks ⊆ locks') :
    lockWords locks ⊆ lockWords locks' :=
  fun _ ⟨va, hva, ha⟩ => ⟨va, h hva, ha⟩

/-- Giving locks back writes lock words. -/
theorem Released.wrote {pid : Pid} {locks : List UInt64} (h : Released s pid locks m m')
    (aligned : ∀ va ∈ locks, va.toNat % 4 = 0) : Wrote (Within s (lockWords locks)) m m' := by
  have tail : ∀ {va : UInt64} {locks : List UInt64} {t : SpaceId} {a : Nat},
      Within s (lockWords locks) t a → Within s (lockWords (va :: locks)) t a :=
    fun ⟨ht, ha⟩ => ⟨ht, lockWords_mono (List.subset_cons_self _ _) ha⟩
  induction h with
  | nil => exact .refl _
  | @mark m m₁ m' va locks word owned marked rest ih =>
    have hal := aligned va List.mem_cons_self
    have hfirst : Wrote (Within s (lockWords (va :: locks))) m m₁ := by
      refine ⟨marked.rest, fun x hx => ?_⟩
      by_contra hnone
      refine hx (marked.others x fun i hi hphys => hnone ?_)
      have huser := owned.user
      have hspan : va.toNat + i ∈ span va 4 := ⟨by omega, by omega⟩
      refine ⟨s, va.toNat + i, ⟨rfl, va, List.mem_cons_self, hal, hspan⟩, ⟨by omega, ?_⟩, hphys⟩
      exact allows_aligned hal hi (allows_userReadWrite.1 owned.page).2
    exact hfirst.trans ((ih fun va hva => aligned va (.tail _ hva)).mono fun _ _ => tail)
  | @skip m m' va locks _ _ ih =>
    exact (ih fun va hva => aligned va (.tail _ hva)).mono fun _ _ => tail

/-! ## Reading -/

/-- As many bytes are found as were looked for. -/
theorem length_of_bytes? {a len : Nat} (h : m.bytes? s a len = some bs) : bs.length = len := by
  induction len generalizing a bs with
  | zero =>
    cases h
    rfl
  | succ len ih =>
    rw [bytes?] at h
    split at h
    · obtain ⟨bs', hbs', rfl⟩ := Option.map_eq_some_iff.1 h
      rw [List.length_cons, ih hbs']
    · cases h

/-- As many bytes are read as were asked for. -/
theorem length_of_userRead {len : Nat} (h : m.userRead s va len = .ok bs) : bs.length = len := by
  unfold userRead at h
  split at h
  · cases h
  unfold load at h
  split at h
  · cases hbytes : (m.enter s).bytes? s va.toNat len with
    | none =>
      rw [hbytes] at h
      cases h
    | some bs' =>
      rw [hbytes] at h
      cases h
      exact length_of_bytes? hbytes
  · cases h

end SyncKernel.Memory
