import SyncKernel.Proofs.Writes

/-!
# Access to user memory is exact

Every access of the kernel to the memory of a process begins with a check of whole pages, from the
page of the first address on. The check is right about the single addresses: it succeeds exactly if
the range ends within user memory and each of its addresses is on a page that grants the access
(`userCheck_iff`). It counts in 64 bits, and its last page ends where counting still works, so it
never comes to an address that has no word (`checkWords_eq`).

A read succeeds exactly if its check does, and then answers the bytes of the range
(`readsExactly`). A write succeeds exactly if its check does, and then the range holds what was
written and nothing else changed (`Memory.Overwrites`): a byte of any address space changed only if
its page shares the frame behind the range (`Made.overwrites`). Both leave the memory as it was when
they are refused (`user_access_exact`).
-/

namespace SyncKernel.Memory

variable {m m' : Memory} {s t : SpaceId} {need : PageFlags} {a c : Nat} {va stop page : UInt64}
  {bs : List UInt8} {len : Nat}

/-! ## Ranges of addresses -/

/-- An address translates to permissions that contain `need`, and its page is in use and open to
user code. -/
def Grants (m : Memory) (s : SpaceId) (need : PageFlags) (a : Nat) : Prop :=
  ∃ flags, m.translate s a = some flags ∧ flags.contains need = true ∧ flags.user = true ∧
    flags.valid = true

/-- `len` bytes from `a` on are user memory: their end is an address, lies within the user limit,
and every byte is on a page that grants `need`. -/
structure UserRange (m : Memory) (s : SpaceId) (need : PageFlags) (a len : Nat) : Prop where
  address : a + len < UInt64.size
  limit : a + len ≤ userLimit
  grants : ∀ i < len, m.Grants s need (a + i)

/-- Permissions contain needed ones on a user page if they contain them, are in use and open to user
code. -/
theorem contains_union_userPage {f : PageFlags} : f.contains (need.union .userPage) = true ↔
    f.contains need = true ∧ f.user = true ∧ f.valid = true := by
  simp only [PageFlags.contains, PageFlags.union, PageFlags.userPage]
  grind

/-- An address grants an access exactly if its page allows it on a user page. -/
theorem grants_iff : m.Grants s need a ↔ m.Allows s (need.union .userPage) a := by
  simp [Grants, Allows, translate, contains_union_userPage]

/-- A check of whole pages succeeds exactly if every single address may be accessed. -/
theorem userCheck_iff : m.userCheck s va len need = .ok () ↔ m.UserRange s need va.toNat len := by
  have hlimit : userLimit < UInt64.size := by decide
  have hcheck : m.userCheck s va len need = .ok () ↔ va.toNat + len ≤ userLimit ∧
      ∀ i < len, m.Allows s (need.union .userPage) (va.toNat + i) := check_eq_ok
  rw [hcheck]
  constructor
  · rintro ⟨hstop, hall⟩
    exact ⟨by omega, hstop, fun i hi => grants_iff.2 (hall i hi)⟩
  · rintro ⟨-, hstop, hall⟩
    exact ⟨hstop, fun i hi => grants_iff.1 (hall i hi)⟩

/-! ## Counting in words -/

/-- The address one page further on, where it has a word. -/
theorem toNat_add_pageSize (h : page.toNat + pageSize < UInt64.size) :
    (page + UInt64.ofNat pageSize).toNat = page.toNat + pageSize := by
  have hsize : (UInt64.ofNat pageSize).toNat = pageSize := rfl
  rw [UInt64.toNat_add, hsize]
  exact Nat.mod_eq_of_lt h

/-- The pages from the address `page` on that begin before `stop` all have the permissions `need`,
found out with addresses that are words: to go on behind the highest page is a fault. -/
def walkPages (m : Memory) (s : SpaceId) (need : PageFlags) (stop page : UInt64) :
    Except Fault (Except Errno Unit) :=
  if stop ≤ page then .ok (.ok ())
  else match m.translate s page.toNat with
    | none => .ok (.error .badAddress)
    | some flags =>
      if flags.contains need then
        if page.toNat + pageSize < UInt64.size then
          walkPages m s need stop (page + UInt64.ofNat pageSize)
        else .error .addressOverflow
      else .ok (.error .badAddress)
termination_by stop.toNat - page.toNat
decreasing_by
  have hlt : page.toNat < stop.toNat := UInt64.lt_iff_toNat_lt.1 (UInt64.not_le.1 ‹¬stop ≤ page›)
  have hnext := toNat_add_pageSize ‹page.toNat + pageSize < UInt64.size›
  simp only [pageSize] at hnext ⊢
  omega

/-- The check with addresses that are words. -/
def checkWords (m : Memory) (s : SpaceId) (va len : UInt64) (need : PageFlags) :
    Except Fault (Except Errno Unit) :=
  if UInt64.size ≤ va.toNat + len.toNat then .ok (.error .badAddress)
  else
    let stop := va + len
    if userLimit < stop.toNat then .ok (.error .badAddress)
    else if len = 0 then .ok (.ok ())
    else m.walkPages s (need.union .userPage) stop (pageStart va)

/-- Walking from a page on that ends in user memory looks at all pages up to `stop`, and none of
them is the highest one. -/
theorem walkPages_eq (hstop : stop.toNat ≤ userLimit) (count : Nat) : ∀ {n : Nat} {page : UInt64},
    page.toNat = n * pageSize → count = (stop.toNat + (pageSize - 1)) / pageSize - n →
    m.walkPages s need stop page =
      .ok (if m.pagesAllow s need n count then .ok () else .error .badAddress) := by
  induction count with
  | zero =>
    intro n page hpage hcount
    simp only [pageSize] at hpage hcount
    have hle : stop ≤ page := UInt64.le_iff_toNat_le.2 (by omega)
    rw [walkPages, if_pos hle, pagesAllow, if_pos rfl]
  | succ count ih =>
    intro n page hpage hcount
    simp only [pageSize, userLimit] at hpage hcount hstop
    have hnot : ¬ stop ≤ page := fun hle => by
      have := UInt64.le_iff_toNat_le.1 hle
      omega
    have hkey : page.toNat / pageSize = n := by
      simp only [pageSize]
      omega
    have htranslate : m.translate s page.toNat = (m.pages[(⟨s, n⟩ : PageKey)]?).map (·.flags) := by
      rw [translate, pageAt?, hkey]
    have hnext : page.toNat + pageSize < UInt64.size := by
      simp only [pageSize, UInt64.size]
      omega
    have hsucc : (page + UInt64.ofNat pageSize).toNat = (n + 1) * pageSize := by
      rw [toNat_add_pageSize hnext, hpage]
      simp only [pageSize]
      omega
    have hrest := ih (n := n + 1) hsucc (by simp only [pageSize]; omega)
    rw [walkPages, if_neg hnot, htranslate, pagesAllow]
    cases m.pages[(⟨s, n⟩ : PageKey)]? with
    | none => rfl
    | some p => cases hflags : p.flags.contains need <;> simp [hflags, hnext, hrest]

/-- The check never comes to an address that has no word, and answers what is said of it here. -/
theorem checkWords_eq (m : Memory) (s : SpaceId) (va len : UInt64) (need : PageFlags) :
    m.checkWords s va len need = .ok (m.check s va len.toNat need) := by
  have hlimit : userLimit < UInt64.size := by decide
  unfold checkWords check
  dsimp only
  by_cases hover : UInt64.size ≤ va.toNat + len.toNat
  · rw [if_pos hover, if_pos (by omega)]
  have hstop : (va + len).toNat = va.toNat + len.toNat := by
    rw [UInt64.toNat_add]
    simp only [UInt64.size] at hover
    omega
  rw [if_neg hover, hstop]
  by_cases hbeyond : userLimit < va.toNat + len.toNat
  · rw [if_pos hbeyond, if_pos hbeyond]
  rw [if_neg hbeyond, if_neg hbeyond]
  by_cases hlen : len = 0
  · subst hlen
    rfl
  have hpos : len.toNat ≠ 0 := fun h => hlen (UInt64.toNat_inj.1 h)
  have hstart : (pageStart va).toNat = va.toNat / pageSize * pageSize := by
    have hva := va.toNat_lt
    refine UInt64.toNat_ofNat_of_lt' ?_
    simp only [pageSize, UInt64.size]
    omega
  rw [if_neg hlen, if_neg hpos]
  refine walkPages_eq (by omega) _ hstart ?_
  rw [hstop]
  simp only [pageSize]
  omega

/-! ## Reading -/

/-- The bytes from an address on are those that it holds. -/
theorem bytes?_eq_some : m.bytes? s a len = some bs ↔ bs.length = len ∧ m.Holds s a bs := by
  constructor
  · intro h
    refine ⟨length_of_bytes? h, ?_⟩
    induction len generalizing a bs with
    | zero =>
      cases h
      exact fun i hi => absurd hi (Nat.not_lt_zero i)
    | succ len ih =>
      rw [bytes?] at h
      split at h
      · next b hb =>
        obtain ⟨rest, hrest, rfl⟩ := Option.map_eq_some_iff.1 h
        intro i hi
        cases i with
        | zero => exact hb
        | succ i =>
          have hsucc : a + (i + 1) = a + 1 + i := by omega
          rw [hsucc, List.getElem?_cons_succ]
          exact ih hrest i (by simpa using hi)
      · cases h
  · rintro ⟨rfl, h⟩
    exact h.bytes?

/-- Mapped addresses hold some bytes. -/
theorem exists_holds (h : ∀ i < len, ∃ x, m.physical? s (a + i) = some x) :
    ∃ bs, bs.length = len ∧ m.Holds s a bs := by
  refine ⟨(List.range len).map fun i => (m.byte? s (a + i)).getD 0, by simp, fun i hi => ?_⟩
  have hi : i < len := by simpa using hi
  obtain ⟨x, hx⟩ := h i hi
  have hbyte : m.byte? s (a + i) = some (m.cell x) := by rw [byte?, hx]; rfl
  simp [hi, hbyte]

/-- A read after its check, as it takes place where the address space is switched in. -/
def checkedLoad (s : SpaceId) (va : UInt64) (len : Nat) (m : Memory) :
    Except Errno (List UInt8) × Memory :=
  (m.check s va len .toRead >>= fun _ => m.load s va len, m)

/-- A read succeeds exactly if its check does, answers the bytes of the range, and leaves the
memory, whether it is refused or not. -/
structure ReadsExactly (m : Memory) (s : SpaceId) (va : UInt64) (len : Nat) : Prop where
  succeeds : (∃ bs, m.userRead s va len = .ok bs) ↔ m.userCheck s va len .toRead = .ok ()
  bytes : ∀ bs, m.userRead s va len = .ok bs → bs.length = len ∧ m.Holds s va.toNat bs
  leaves : m.access s (checkedLoad s va len) = (m.userRead s va len, m)

/-- A read that passes its check answers what the memory holds. -/
theorem userRead_of_check (h : m.userCheck s va len .toRead = .ok ()) :
    ∃ bs, m.userRead s va len = .ok bs ∧ bs.length = len ∧ m.Holds s va.toNat bs := by
  obtain ⟨hsize, -, hgrants⟩ := userCheck_iff.1 h
  obtain ⟨bs, hlength, hholds⟩ := exists_holds fun i hi => (grants_iff.1 (hgrants i hi)).physical?
  have hbytes : (m.enter s).bytes? s va.toNat len = some bs := bytes?_eq_some.2 ⟨hlength, hholds⟩
  refine ⟨bs, ?_, hlength, hholds⟩
  rw [userCheck] at h
  rw [userRead, h]
  dsimp only
  rw [load, if_pos hsize, hbytes]
  rfl

/-- What is read passed its check. -/
theorem check_of_userRead (h : m.userRead s va len = .ok bs) :
    m.userCheck s va len .toRead = .ok () := by
  unfold userRead at h
  split at h
  · cases h
  · next hcheck => exact hcheck

/-- What is read is what the memory holds where user code may read. -/
theorem userRead_eq_ok : m.userRead s va len = .ok bs ↔
    m.UserRange s .toRead va.toNat len ∧ bs.length = len ∧ m.Holds s va.toNat bs := by
  rw [← userCheck_iff]
  constructor
  · intro h
    obtain ⟨bs', hread, hlength, hholds⟩ := userRead_of_check (check_of_userRead h)
    cases h.symm.trans hread
    exact ⟨check_of_userRead h, hlength, hholds⟩
  · rintro ⟨hcheck, hlength, hholds⟩
    obtain ⟨bs', hread, hlength', hholds'⟩ := userRead_of_check hcheck
    have hbytes := bytes?_eq_some.2 ⟨hlength, hholds⟩
    cases hbytes.symm.trans (bytes?_eq_some.2 ⟨hlength', hholds'⟩)
    exact hread

/-- Every read is exact. -/
theorem readsExactly (m : Memory) (s : SpaceId) (va : UInt64) (len : Nat) :
    m.ReadsExactly s va len where
  succeeds := by
    constructor
    · rintro ⟨bs, h⟩
      exact check_of_userRead h
    · intro h
      obtain ⟨bs, hread, -⟩ := userRead_of_check h
      exact ⟨bs, hread⟩
  bytes _ h := (userRead_eq_ok.1 h).2
  leaves := access_userRead m s va len

/-! ## Writing -/

/-- From the address `a` on stand the bytes of a list, and nothing else changed: a byte of any
address space is what it was unless it is one of those, seen through a page of the same frame. -/
structure Overwrites (m : Memory) (s : SpaceId) (a : Nat) (bs : List UInt8) (m' : Memory) :
    Prop where
  rest : m' = { m with bytes := m'.bytes }
  holds : m'.Holds s a bs
  others : ∀ t c, (∀ i < bs.length, m.physical? t c ≠ m.physical? s (a + i)) →
    m'.byte? t c = m.byte? t c

/-- Where a write changed no byte behind an address, the address reads as before. -/
theorem byte?_of_setBytes? (hset : m.setBytes? s a bs = some m')
    (hc : ∀ i < bs.length, m.physical? t c ≠ m.physical? s (a + i)) :
    m'.byte? t c = m.byte? t c := by
  have hphys : m'.physical? t c = m.physical? t c := by rw [setBytes?_eq_some hset]; rfl
  rw [byte?, byte?, hphys]
  refine Option.map_congr fun x hx => ?_
  by_contra hne
  obtain ⟨i, hi, hbehind⟩ := exists_of_cell_setBytes? hset hne
  exact hc i hi (hx.trans hbehind.symm)

/-- A write puts its bytes where it was told, and changes nothing else. -/
theorem Made.overwrites (made : m.Made) (h : m.userWrite s va bs = .ok m') :
    m.Overwrites s va.toNat bs m' where
  rest := (Wrote.of_userWrite h).rest
  holds i hi := by
    rw [made.sound.byte?_userWrite h, if_pos (by omega), Nat.add_sub_cancel_left]
  others _ _ hc := byte?_of_setBytes? (setBytes?_of_userWrite h).2 hc

/-- A write after its check, as it takes place where the address space is switched in. -/
def checkedStore (s : SpaceId) (va : UInt64) (bs : List UInt8) (m : Memory) :
    Except Errno Unit × Memory :=
  match m.check s va bs.length .toWrite >>= fun _ => m.store s va bs with
  | .ok m' => (.ok (), m')
  | .error e => (.error e, m)

/-- A write succeeds exactly if its check does, changes the bytes of the range to its data and no
others, and leaves the memory if it is refused. -/
structure WritesExactly (m : Memory) (s : SpaceId) (va : UInt64) (bs : List UInt8) : Prop where
  succeeds : (∃ m', m.userWrite s va bs = .ok m') ↔ m.userCheck s va bs.length .toWrite = .ok ()
  bytes : ∀ m', m.userWrite s va bs = .ok m' → m.Overwrites s va.toNat bs m' ∧
    ∀ c, m'.byte? s c =
      if va.toNat ≤ c ∧ c < va.toNat + bs.length then bs[c - va.toNat]? else m.byte? s c
  leaves : m.access s (checkedStore s va bs) = match m.userWrite s va bs with
    | .ok m' => (.ok (), m')
    | .error e => (.error e, m)

/-- What is written passed its check. -/
theorem check_of_userWrite (h : m.userWrite s va bs = .ok m') :
    m.userCheck s va bs.length .toWrite = .ok () := by
  unfold userWrite at h
  split at h
  · cases h
  · next hcheck => exact hcheck

/-- Every write to a memory that can come about is exact. -/
theorem Made.writesExactly (made : m.Made) (s : SpaceId) (va : UInt64) (bs : List UInt8) :
    m.WritesExactly s va bs where
  succeeds := ⟨fun ⟨_, h⟩ => check_of_userWrite h, exists_userWrite⟩
  bytes _ h := ⟨made.overwrites h, fun _ => made.sound.byte?_userWrite h⟩
  leaves := access_userWrite m s va bs

/-- The checks of the kernel on user memory are exact, and so is what it reads and writes after
them. -/
theorem user_access_exact (m : Memory) (s : SpaceId) (va : UInt64) :
    (∀ (len : UInt64) (need : PageFlags),
      (m.enter s).checkWords s va len need = .ok (m.userCheck s va len.toNat need) ∧
        (m.userCheck s va len.toNat need = .ok () ↔ m.UserRange s need va.toNat len.toNat)) ∧
      (∀ len, m.ReadsExactly s va len) ∧ (m.Made → ∀ bs, m.WritesExactly s va bs) := by
  refine ⟨fun len need => ⟨?_, userCheck_iff⟩, fun len => m.readsExactly s va len, ?_⟩
  · exact checkWords_eq (m.enter s) s va len need
  · exact fun made bs => made.writesExactly s va bs

/-- A result with a property is there. -/
theorem exists_of_any_toOption {ε α : Type} {x : Except ε α} {f : α → Bool}
    (h : x.toOption.any f = true) : ∃ y, x = .ok y ∧ f y = true := by
  cases x with
  | error e => cases h
  | ok y => exact ⟨y, rfl, h⟩

/-- Two pages are mapped. Eight bytes across the border between them are written, and eight bytes
that begin on the second page and end behind it are refused. -/
theorem user_access_exact_of_pageBorder :
    ∃ m m' : Memory, m.Made ∧ m.UserRange 0 .toWrite 0x10ffc 8 ∧
      m.userWrite 0 0x10ffc [1, 2, 3, 4, 5, 6, 7, 8] = .ok m' ∧
      m.Overwrites 0 0x10ffc [1, 2, 3, 4, 5, 6, 7, 8] m' ∧
      ¬ m.UserRange 0 .toWrite 0x11ffc 8 ∧
      m.access 0 (checkedStore 0 0x11ffc [1, 2, 3, 4, 5, 6, 7, 8]) = (.error .badAddress, m) := by
  have hplay : ((({} : Memory).map 0 0x10000 0x2000 .userReadWrite).toOption.any fun m =>
      m.userCheck 0 0x10ffc 8 .toWrite = .ok () ∧
        m.userCheck 0 0x11ffc 8 .toWrite = .error .badAddress) = true := by
    decide +kernel
  obtain ⟨m, hmap, hplay⟩ := exists_of_any_toOption hplay
  obtain ⟨hcheck, hrefused⟩ := of_decide_eq_true hplay
  have made : m.Made := .map .empty hmap
  obtain ⟨hexact, -, hwrites⟩ := m.user_access_exact 0 0x10ffc
  obtain ⟨hexact', -, hwrites'⟩ := m.user_access_exact 0 0x11ffc
  have hwrite := hwrites made [1, 2, 3, 4, 5, 6, 7, 8]
  have hwrite' := hwrites' made [1, 2, 3, 4, 5, 6, 7, 8]
  obtain ⟨m', hm'⟩ := hwrite.succeeds.2 hcheck
  refine ⟨m, m', made, (hexact 8 .toWrite).2.1 hcheck, hm', (hwrite.bytes m' hm').1, ?_, ?_⟩
  · intro hrange
    cases hrefused.symm.trans ((hexact' 8 .toWrite).2.2 hrange)
  · rw [hwrite'.leaves, userWrite]
    have hrefused : (m.enter 0).check 0 0x11ffc 8 .toWrite = .error .badAddress := hrefused
    simp [hrefused]

end SyncKernel.Memory
