import SyncKernel.Proofs.UserAccess

/-!
# Bytes on shared pages

Address spaces are one byte memory with pages in common. Bytes can be read or written exactly if
their end is an address and each of them is on a page. A write then changes, in every address
space, the bytes at its own addresses on the pages whose frames it went through, and no others; a
read answers the bytes at its addresses (`shared_pages_exact`). That pages with a frame in common
have the same number (`Made.sound`) is why no byte is changed at another address.

Bytes are moved page by page: a range is cut where a page ends, and the walk over its parts counts
what lies behind it (`eachChunk`). A write walks twice, first to see that all pages are there; so a
page that is missing is noticed before a byte is changed (`storeByPages_eq`).
-/

namespace SyncKernel.Memory

variable {m m' : Memory} {s t : SpaceId} {a x len done : Nat} {va : UInt64} {bs : List UInt8}

/-! ## Ranges -/

/-- `len` addresses from `a` on are all on pages. -/
def Mapped (m : Memory) (s : SpaceId) (a len : Nat) : Prop :=
  ∀ i < len, ∃ p, m.pageAt? s (a + i) = some p

/-- Bytes that cannot be moved: their end is no address, or one of them is not on a page. -/
def OutOfReach (m : Memory) (s : SpaceId) (va : UInt64) (len : Nat) : Prop :=
  UInt64.size ≤ va.toNat + len ∨ ∃ i < len, m.pageAt? s (va.toNat + i) = none

/-- An address has a place in a frame exactly if it is on a page. -/
theorem exists_physical?_iff :
    (∃ x, m.physical? s a = some x) ↔ ∃ p, m.pageAt? s a = some p := by
  rw [← Option.isSome_iff_exists, ← Option.isSome_iff_exists, physical?, Option.isSome_map]

/-- Bytes can be moved exactly if their end is an address and all of them are on pages. -/
theorem not_outOfReach : ¬ m.OutOfReach s va len ↔
    va.toNat + len < UInt64.size ∧ m.Mapped s va.toNat len := by
  simp only [OutOfReach, Mapped, not_or, Nat.not_le, not_exists, not_and, ← ne_eq,
    Option.ne_none_iff_exists']

/-- Bytes that are out of reach, though their end is an address, are not all on pages. -/
theorem OutOfReach.not_mapped (h : m.OutOfReach s va len)
    (hsize : ¬ UInt64.size ≤ va.toNat + len) : ¬ m.Mapped s va.toNat len := fun hmapped =>
  not_outOfReach.2 ⟨Nat.not_le.1 hsize, hmapped⟩ h

/-- Bytes can be written exactly if each of them is on a page. -/
theorem exists_setBytes?_iff : (∃ m', m.setBytes? s a bs = some m') ↔ m.Mapped s a bs.length := by
  refine ⟨?_, fun h => exists_setBytes? fun i hi => exists_physical?_iff.2 (h i hi)⟩
  rintro ⟨m', h⟩
  induction bs generalizing m a with
  | nil => exact fun i hi => absurd hi (Nat.not_lt_zero i)
  | cons b bs ih =>
    rw [setBytes?] at h
    split at h
    · next x hx =>
      intro i hi
      cases i with
      | zero => exact exists_physical?_iff.1 ⟨x, hx⟩
      | succ i =>
        have hsucc : a + (i + 1) = a + 1 + i := by omega
        rw [hsucc]
        exact ih h i (by simpa using hi)
    · cases h

/-- Bytes can be read exactly if each of them is on a page. -/
theorem exists_bytes?_iff : (∃ bs, m.bytes? s a len = some bs) ↔ m.Mapped s a len := by
  constructor
  · rintro ⟨bs, h⟩ i hi
    obtain ⟨rfl, hholds⟩ := bytes?_eq_some.1 h
    have hbyte := hholds i hi
    rw [List.getElem?_eq_getElem hi, byte?, Option.map_eq_some_iff] at hbyte
    obtain ⟨x, hx, -⟩ := hbyte
    exact exists_physical?_iff.1 ⟨x, hx⟩
  · intro h
    obtain ⟨bs, hlength, hholds⟩ := exists_holds fun i hi => exists_physical?_iff.2 (h i hi)
    exact ⟨bs, bytes?_eq_some.2 ⟨hlength, hholds⟩⟩

/-- A read answers the bytes at its addresses. -/
theorem load_eq_ok : m.load s va len = .ok bs ↔
    va.toNat + len < UInt64.size ∧ m.bytes? s va.toNat len = some bs := by
  unfold load
  split
  · next h =>
    cases m.bytes? s va.toNat len <;> simp [h]
  · next h => simp [h]

/-- What is not done is refused, and there is one reason to refuse. -/
theorem store_eq_error : m.store s va bs = .error .badAddress ↔ m.OutOfReach s va bs.length := by
  rw [← not_iff_not, not_outOfReach, ← exists_setBytes?_iff]
  unfold store
  split
  · next h => cases m.setBytes? s va.toNat bs <;> simp [h]
  · next h => simp [h]

/-- A read is refused exactly if it is out of reach. -/
theorem load_eq_error : m.load s va len = .error .badAddress ↔ m.OutOfReach s va len := by
  rw [← not_iff_not, not_outOfReach, ← exists_bytes?_iff]
  unfold load
  split
  · next h => cases m.bytes? s va.toNat len <;> simp [h]
  · next h => simp [h]

/-! ## Page by page -/

/-- A part of a range that is on one page: the frame of the page and where the part begins in it,
how much of the range lies before the part, and how long it is. -/
structure Chunk where
  /-- The number of the frame. -/
  frame : Nat
  /-- Where the part begins in the frame. -/
  offset : Nat
  /-- How many addresses of the range come before. -/
  done : Nat
  /-- The number of addresses. -/
  size : Nat

/-- The part of the `len` addresses from `a` on that follows the first `done` and is on the page
`p`. -/
def Chunk.next (p : Page) (a len done : Nat) : Chunk :=
  let offset := (a + done) % pageSize
  ⟨p.frame, offset, done, min (pageSize - offset) (len - done)⟩

/-- A chunk is not empty while there is something left. -/
theorem Chunk.next_size_pos {p : Page} (h : done < len) : 0 < (Chunk.next p a len done).size := by
  have hoffset : (a + done) % pageSize < pageSize := Nat.mod_lt _ (by decide)
  simp only [Chunk.next]
  omega

/-- Something is done with one part after the other of the `len` addresses from `a` on, the first
`done` of which lie behind. The walk ends where a page is missing. -/
def eachChunk {σ : Type} (m : Memory) (s : SpaceId) (a len : Nat) (f : Chunk → σ → σ)
    (done : Nat) (st : σ) : Except Errno Unit × σ :=
  if done < len then
    match m.pageAt? s (a + done) with
    | none => (.error .badAddress, st)
    | some p =>
      let c := Chunk.next p a len done
      eachChunk m s a len f (c.done + c.size) (f c st)
  else (.ok (), st)
termination_by len - done
decreasing_by
  have hpos : 0 < (Chunk.next p a len done).size := Chunk.next_size_pos ‹done < len›
  have hdone : (Chunk.next p a len done).done = done := rfl
  omega

/-- A chunk is part of a range: the bytes behind its addresses stand in a row in its frame. -/
structure Chunk.PartOf (c : Chunk) (m : Memory) (s : SpaceId) (a len : Nat) : Prop where
  range : c.done + c.size ≤ len
  physical : ∀ i < c.size,
    m.physical? s (a + c.done + i) = some (c.frame * pageSize + c.offset + i)

/-- The next chunk is part of the range. -/
theorem Chunk.next_partOf {p : Page} (hdone : done < len) (hp : m.pageAt? s (a + done) = some p) :
    (Chunk.next p a len done).PartOf m s a len where
  range := by
    simp only [Chunk.next]
    omega
  physical i hi := by
    have hphys : m.physical? s (a + done) =
        some (p.frame * pageSize + (a + done) % pageSize) := by
      rw [physical?, hp, Option.map_some]
    simp only [Chunk.next] at hi ⊢
    exact physical?_add (by omega) hphys

section
variable {σ : Type} {f : Chunk → σ → σ} {st : σ}

/-- The walk comes to its end if all pages are there, and ends early if one is missing. -/
theorem eachChunk_fst (m : Memory) (s : SpaceId) (a len : Nat) (f : Chunk → σ → σ) (done : Nat)
    (st : σ) :
    (m.eachChunk s a len f done st).1 = .ok () ∧
        (∀ i, done ≤ i → i < len → ∃ p, m.pageAt? s (a + i) = some p) ∨
      (m.eachChunk s a len f done st).1 = .error .badAddress ∧
        ∃ i < len, m.pageAt? s (a + i) = none := by
  fun_induction eachChunk m s a len f done st with
  | case1 done st hdone hnone => exact .inr ⟨rfl, done, hdone, hnone⟩
  | case2 done st hdone p hp c ih =>
    refine ih.imp_left fun ⟨hok, hrest⟩ => ⟨hok, fun i hi hlen => ?_⟩
    -- an address of this part is on its page, and one behind it is left to the rest of the walk
    by_cases hlater : c.done + c.size ≤ i
    · exact hrest i hlater hlen
    · obtain ⟨j, rfl⟩ := Nat.exists_eq_add_of_le hi
      have hj : j < c.size := Nat.lt_of_add_lt_add_left (Nat.lt_of_not_le hlater)
      have hphys := (Chunk.next_partOf hdone hp).physical j hj
      rw [Nat.add_assoc] at hphys
      exact exists_physical?_iff.1 ⟨_, hphys⟩
  | case3 done st hdone => exact .inl ⟨rfl, fun i hi hlen => absurd hlen (by omega)⟩

/-- A walk through chunks that are all on pages comes to its end. -/
theorem eachChunk_eq_ok (h : m.Mapped s a len) : (m.eachChunk s a len f 0 st).1 = .ok () := by
  obtain ⟨hok, -⟩ | ⟨-, i, hi, hnone⟩ := m.eachChunk_fst s a len f 0 st
  · exact hok
  · obtain ⟨p, hp⟩ := h i hi
    cases hnone.symm.trans hp

/-- A walk through chunks that are not all on pages is refused. -/
theorem eachChunk_eq_error (h : ¬ m.Mapped s a len) :
    (m.eachChunk s a len f 0 st).1 = .error .badAddress := by
  obtain ⟨-, hmapped⟩ | ⟨herror, -⟩ := m.eachChunk_fst s a len f 0 st
  · exact absurd (fun i hi => hmapped i (Nat.zero_le i) hi) h
  · exact herror

/-- What holds before a walk and is kept with each part of the range holds in the end. -/
theorem eachChunk_snd {P : Nat → σ → Prop} (h : P done st) (hle : done ≤ len)
    (step : ∀ (c : Chunk) (st : σ), c.PartOf m s a len → P c.done st → P (c.done + c.size) (f c st))
    (hok : (m.eachChunk s a len f done st).1 = .ok ()) :
    P len (m.eachChunk s a len f done st).2 := by
  fun_induction eachChunk m s a len f done st with
  | case1 => cases hok
  | case2 done st hdone p hp c ih =>
    have hpart : c.PartOf m s a len := Chunk.next_partOf hdone hp
    exact ih (step c st hpart h) hpart.range hok
  | case3 done st hdone =>
    obtain rfl : done = len := by omega
    exact h

end

/-! ### Writing -/

/-- The bytes at the physical addresses from `x` on are replaced. -/
def fill (m : Memory) (x : Nat) : List UInt8 → Memory
  | [] => m
  | b :: bs => fill { m with bytes := m.bytes.insert x b } (x + 1) bs

/-- The bytes of a part of the range that `data` is written to. -/
def writeChunk (data : List UInt8) (c : Chunk) (m : Memory) : Memory :=
  m.fill (c.frame * pageSize + c.offset) ((data.drop c.done).take c.size)

/-- A write as it takes place: a first walk sees that all pages are there, and a second one moves
the bytes. -/
def storeByPages (m : Memory) (s : SpaceId) (va : UInt64) (data : List UInt8) :
    Except Errno Unit × Memory :=
  if UInt64.size ≤ va.toNat + data.length then (.error .badAddress, m)
  else match (m.eachChunk s va.toNat data.length (fun _ => id) 0 ()).1 with
    | .error e => (.error e, m)
    | .ok () => m.eachChunk s va.toNat data.length (writeChunk data) 0 m

/-- Bytes in a row are written in a row. -/
theorem setBytes?_of_row (hrow : ∀ i < bs.length, m.physical? s (a + i) = some (x + i)) :
    m.setBytes? s a bs = some (m.fill x bs) := by
  induction bs generalizing m a x with
  | nil => rfl
  | cons b bs ih =>
    have hx : m.physical? s a = some x := hrow 0 (by simp)
    rw [setBytes?, hx]
    exact ih (row_tail hrow)

/-- Bytes may be set in two parts. -/
theorem setBytes?_append {cs : List UInt8} : m.setBytes? s a (bs ++ cs) =
    (m.setBytes? s a bs).bind fun m' => m'.setBytes? s (a + bs.length) cs := by
  induction bs generalizing m a with
  | nil => rfl
  | cons b bs ih =>
    rw [List.cons_append, setBytes?, setBytes?]
    cases m.physical? s a with
    | none => rfl
    | some x =>
      have hsucc : a + (b :: bs).length = a + 1 + bs.length := by
        rw [List.length_cons]
        omega
      rw [hsucc]
      exact ih

/-- With each part of the range, what was written is what lies behind. -/
theorem Chunk.PartOf.setBytes? {c : Chunk} (part : c.PartOf m s a bs.length)
    (h : m.setBytes? s a (bs.take c.done) = some m') :
    m.setBytes? s a (bs.take (c.done + c.size)) = some (m'.writeChunk bs c) := by
  have hrange := part.range
  have hbehind : (bs.take c.done).length = c.done := List.length_take_of_le (by omega)
  have hsize : ((bs.drop c.done).take c.size).length = c.size :=
    List.length_take_of_le (by rw [List.length_drop]; omega)
  rw [List.take_add, setBytes?_append, h, Option.bind_some, hbehind]
  refine setBytes?_of_row fun i hi => ?_
  rw [setBytes?_eq_some h]
  exact part.physical i (hsize ▸ hi)

/-- Writing page by page is writing byte by byte, and a write that is refused changes no byte. -/
theorem storeByPages_eq (m : Memory) (s : SpaceId) (va : UInt64) (bs : List UInt8) :
    m.storeByPages s va bs = match m.store s va bs with
      | .ok m' => (.ok (), m')
      | .error e => (.error e, m) := by
  by_cases hreach : m.OutOfReach s va bs.length
  · rw [store_eq_error.2 hreach, storeByPages]
    split
    · rfl
    · next hsize => rw [eachChunk_eq_error (hreach.not_mapped hsize)]
  · obtain ⟨hsize, hmapped⟩ := not_outOfReach.1 hreach
    obtain ⟨m', hset⟩ := exists_setBytes?_iff.2 hmapped
    -- at each part of the second walk, the bytes behind it are written
    have hwritten : m.setBytes? s va.toNat (bs.take bs.length) =
        some (m.eachChunk s va.toNat bs.length (writeChunk bs) 0 m).2 :=
      eachChunk_snd (P := fun done m' => m.setBytes? s va.toNat (bs.take done) = some m') rfl
        (Nat.zero_le _) (fun c m' part h => part.setBytes? h) (eachChunk_eq_ok hmapped)
    rw [List.take_length, hset, Option.some.injEq] at hwritten
    rw [store_eq_ok.2 ⟨hsize, hset⟩, storeByPages, if_neg (Nat.not_le.2 hsize),
      eachChunk_eq_ok hmapped]
    exact Prod.ext (eachChunk_eq_ok hmapped) hwritten.symm

/-! ### Reading -/

/-- The `n` bytes at the physical addresses from `x` on. -/
def row (m : Memory) (x n : Nat) : List UInt8 :=
  (List.range' x n).map m.cell

/-- A part of the range that is read into `buffer`. -/
def readChunk (m : Memory) (c : Chunk) (buffer : List UInt8) : List UInt8 :=
  buffer.take c.done ++ m.row (c.frame * pageSize + c.offset) c.size ++
    buffer.drop (c.done + c.size)

/-- A read as it takes place: the bytes of one page after the other come into a buffer. -/
def loadByPages (m : Memory) (s : SpaceId) (va : UInt64) (buffer : List UInt8) :
    Except Errno Unit × List UInt8 :=
  if UInt64.size ≤ va.toNat + buffer.length then (.error .badAddress, buffer)
  else m.eachChunk s va.toNat buffer.length m.readChunk 0 buffer

/-- Addresses whose places stand in a row hold the row. -/
theorem holds_row (hrow : ∀ i < len, m.physical? s (a + i) = some (x + i)) :
    m.Holds s a (m.row x len) := by
  intro i hi
  have hi : i < len := by simpa [row] using hi
  simp [row, byte?, hrow i hi, hi, cell]

/-- Bytes that follow each other are held together. -/
theorem Holds.append {cs : List UInt8} (h : m.Holds s a bs) (h' : m.Holds s (a + bs.length) cs) :
    m.Holds s a (bs ++ cs) := by
  intro i hi
  by_cases hbs : i < bs.length
  · rw [h i hbs, List.getElem?_append_left hbs]
  · obtain ⟨j, rfl⟩ := Nat.exists_eq_add_of_le (Nat.le_of_not_lt hbs)
    rw [List.length_append] at hi
    rw [← Nat.add_assoc, h' j (by omega), List.getElem?_append_right (by omega),
      Nat.add_sub_cancel_left]

/-- What a buffer holds when `done` of the `len` addresses from `a` on lie behind. -/
structure Filled (m : Memory) (s : SpaceId) (a len done : Nat) (buffer : List UInt8) : Prop where
  length : buffer.length = len
  holds : m.Holds s a (buffer.take done)

/-- With each part of the range, what lies behind is in the buffer. -/
theorem Chunk.PartOf.filled {c : Chunk} {buffer : List UInt8} (part : c.PartOf m s a len)
    (h : m.Filled s a len c.done buffer) :
    m.Filled s a len (c.done + c.size) (m.readChunk c buffer) := by
  have hrange := part.range
  rw [← h.length] at hrange
  have hbehind : (buffer.take c.done).length = c.done := List.length_take_of_le (by omega)
  have hrow : (m.row (c.frame * pageSize + c.offset) c.size).length = c.size := by simp [row]
  constructor
  · rw [← h.length]
    simp only [readChunk, List.length_append, hbehind, hrow, List.length_drop]
    omega
  · rw [readChunk, List.take_left' (by rw [List.length_append, hbehind, hrow])]
    refine h.holds.append ?_
    rw [hbehind]
    exact holds_row part.physical

/-- Reading page by page is reading byte by byte, whatever is in the buffer. -/
theorem loadByPages_eq (m : Memory) (s : SpaceId) (va : UInt64) (buffer : List UInt8) :
    (∀ bs, m.load s va buffer.length = .ok bs → m.loadByPages s va buffer = (.ok (), bs)) ∧
      ∀ e, m.load s va buffer.length = .error e → (m.loadByPages s va buffer).1 = .error e := by
  by_cases hreach : m.OutOfReach s va buffer.length
  · rw [load_eq_error.2 hreach]
    refine ⟨nofun, fun e he => ?_⟩
    cases he
    rw [loadByPages]
    split
    · rfl
    · next hsize => exact eachChunk_eq_error (hreach.not_mapped hsize)
  · obtain ⟨hsize, hmapped⟩ := not_outOfReach.1 hreach
    have hfilled : m.Filled s va.toNat buffer.length buffer.length
        (m.eachChunk s va.toNat buffer.length m.readChunk 0 buffer).2 :=
      eachChunk_snd ⟨rfl, fun i hi => absurd hi (by simp)⟩ (Nat.zero_le _)
        (fun c st part h => part.filled h) (eachChunk_eq_ok hmapped)
    have hholds := hfilled.holds
    rw [List.take_of_length_le hfilled.length.le] at hholds
    have hread := bytes?_eq_some.2 ⟨hfilled.length, hholds⟩
    rw [load_eq_ok.2 ⟨hsize, hread⟩, loadByPages, if_neg (Nat.not_le.2 hsize)]
    refine ⟨fun bs h => ?_, nofun⟩
    cases h
    exact Prod.ext (eachChunk_eq_ok hmapped) rfl

/-! ## Shared pages -/

/-- The pages of two address spaces that hold an address have the same frame. -/
def SharesFrame (m : Memory) (s t : SpaceId) (a : Nat) : Prop :=
  ∃ p q, m.pageAt? s a = some p ∧ m.pageAt? t a = some q ∧ p.frame = q.frame

/-- An address on pages with the same frame has the same place in both spaces. -/
theorem SharesFrame.physical?_eq (h : m.SharesFrame s t a) : m.physical? t a = m.physical? s a := by
  obtain ⟨p, q, hp, hq, hframe⟩ := h
  rw [physical?, physical?, hp, hq, Option.map_some, Option.map_some, hframe]

/-- Addresses with the same byte behind them are equal, and their pages share a frame. -/
theorem Sound.sharesFrame (sound : m.Sound) {c : Nat} (ha : m.physical? s a = some x)
    (hc : m.physical? t c = some x) : a = c ∧ m.SharesFrame s t a := by
  obtain rfl := sound.physical?_inj ha hc
  obtain ⟨p, hp, hx⟩ := Option.map_eq_some_iff.1 ha
  obtain ⟨q, hq, hx'⟩ := Option.map_eq_some_iff.1 hc
  have hframe : p.frame * pageSize = q.frame * pageSize := Nat.add_right_cancel (hx.trans hx'.symm)
  exact ⟨rfl, p, q, hp, hq, Nat.eq_of_mul_eq_mul_right (Nat.succ_pos _) hframe⟩

/-- A write is refused exactly if it is out of reach, and then changes no byte. Otherwise its bytes
stand at its addresses in every address space whose pages there have the same frames, and no other
byte of any address space changed. -/
structure StoresExactly (m : Memory) (s : SpaceId) (va : UInt64) (bs : List UInt8) : Prop where
  refused : m.store s va bs = .error .badAddress ↔ m.OutOfReach s va bs.length
  succeeds : (∃ m', m.store s va bs = .ok m') ↔ ¬ m.OutOfReach s va bs.length
  byPages : m.storeByPages s va bs = match m.store s va bs with
    | .ok m' => (.ok (), m')
    | .error e => (.error e, m)
  rest : ∀ m', m.store s va bs = .ok m' → m' = { m with bytes := m'.bytes }
  shared : ∀ m', m.store s va bs = .ok m' → ∀ t x, va.toNat ≤ x → x < va.toNat + bs.length →
    m.SharesFrame s t x → m'.byte? t x = bs[x - va.toNat]?
  others : ∀ m', m.store s va bs = .ok m' → ∀ t x,
    ¬ (va.toNat ≤ x ∧ x < va.toNat + bs.length ∧ m.SharesFrame s t x) → m'.byte? t x = m.byte? t x

/-- A read is refused exactly if it is out of reach, and otherwise answers the bytes at its
addresses. -/
structure LoadsExactly (m : Memory) (s : SpaceId) (va : UInt64) (len : Nat) : Prop where
  refused : m.load s va len = .error .badAddress ↔ m.OutOfReach s va len
  succeeds : (∃ bs, m.load s va len = .ok bs) ↔ ¬ m.OutOfReach s va len
  bytes : ∀ bs, m.load s va len = .ok bs → bs.length = len ∧ m.Holds s va.toNat bs
  byPages : ∀ buffer, buffer.length = len →
    (∀ bs, m.load s va len = .ok bs → m.loadByPages s va buffer = (.ok (), bs)) ∧
      ∀ e, m.load s va len = .error e → (m.loadByPages s va buffer).1 = .error e

/-- Writing page by page stores exactly what is asked for. -/
theorem Made.storesExactly (made : m.Made) (s : SpaceId) (va : UInt64) (bs : List UInt8) :
    m.StoresExactly s va bs where
  refused := store_eq_error
  succeeds := by
    simp only [store_eq_ok, exists_and_left, exists_setBytes?_iff, not_outOfReach]
  byPages := storeByPages_eq m s va bs
  rest m' h := setBytes?_eq_some (store_eq_ok.1 h).2
  shared m' h t x hle hlt same := by
    have hset := (store_eq_ok.1 h).2
    have hbyte : m'.byte? t x = m'.byte? s x := by
      rw [setBytes?_eq_some hset]
      unfold byte?
      exact congrArg (Option.map _) same.physical?_eq
    rw [hbyte, made.sound.byte?_setBytes? hset, if_pos ⟨hle, hlt⟩]
  others m' h t x hout := by
    obtain ⟨-, hset⟩ := store_eq_ok.1 h
    -- a byte behind an address of the range is only found at that address, through its frame
    refine byte?_of_setBytes? hset fun i hi hphys => hout ?_
    obtain ⟨y, hy⟩ := exists_physical?_iff.2 (exists_setBytes?_iff.1 ⟨m', hset⟩ i hi)
    obtain ⟨rfl, same⟩ := made.sound.sharesFrame hy (hphys.trans hy)
    exact ⟨by omega, by omega, same⟩

/-- Reading page by page loads exactly what is there. -/
theorem loadsExactly (m : Memory) (s : SpaceId) (va : UInt64) (len : Nat) :
    m.LoadsExactly s va len where
  refused := load_eq_error
  succeeds := by
    simp only [load_eq_ok, exists_and_left, exists_bytes?_iff, not_outOfReach]
  bytes bs h := bytes?_eq_some.1 (load_eq_ok.1 h).2
  byPages buffer hlength := by
    subst hlength
    exact loadByPages_eq m s va buffer

/-- However the pages of some address spaces were mapped, shared and written: writes and reads are
exact. -/
theorem shared_pages_exact (made : m.Made) (s : SpaceId) (va : UInt64) :
    (∀ bs, m.StoresExactly s va bs) ∧ ∀ len, m.LoadsExactly s va len :=
  ⟨made.storesExactly s va, m.loadsExactly s va⟩

/-- Two spaces have the second of two pages in common, and different first pages. What the one
writes across the border the other sees on the second page only. A write that ends behind the
second page is refused, and nothing of it is written. -/
theorem shared_pages_exact_of_twoSpaces : ∃ m m' : Memory, m.Made ∧
    m.store 0 0x1ffe [1, 2, 3, 4] = .ok m' ∧
      m'.loadByPages 0 0x1ffe [0, 0, 0, 0] = (.ok (), [1, 2, 3, 4]) ∧
      m'.byte? 1 0x2000 = some 3 ∧ m'.byte? 1 0x1fff = some 0 ∧
    m.OutOfReach 0 0x2ffe 4 ∧ m.storeByPages 0 0x2ffe [5, 6, 7, 8] = (.error .badAddress, m) := by
  have hplay : ((({} : Memory).map 0 0x1000 0x2000 .userReadWrite).toOption.any fun m =>
      (m.share 0 1 0x2000 .userReadWrite).toOption.any fun m =>
        (m.map 1 0x1000 1 .userReadWrite).toOption.any fun m =>
          (m.store 0 0x1ffe [1, 2, 3, 4]).toOption.any fun m' =>
            m'.load 0 0x1ffe 4 = .ok [1, 2, 3, 4] ∧ m.byte? 1 0x1fff = some 0 ∧
            m.pageAt? 0 0x1fff = some ⟨.userReadWrite, 0⟩ ∧
            m.pageAt? 1 0x1fff = some ⟨.userReadWrite, 2⟩ ∧
            m.pageAt? 0 0x2000 = some ⟨.userReadWrite, 1⟩ ∧
            m.pageAt? 1 0x2000 = some ⟨.userReadWrite, 1⟩ ∧ m.pageAt? 0 0x3000 = none) = true := by
    decide +kernel
  obtain ⟨m₁, hmap, hplay⟩ := exists_of_any_toOption hplay
  obtain ⟨m₂, hshare, hplay⟩ := exists_of_any_toOption hplay
  obtain ⟨m, hmap', hplay⟩ := exists_of_any_toOption hplay
  obtain ⟨m', hstore, hplay⟩ := exists_of_any_toOption hplay
  obtain ⟨hload, hzero, hfirst, hfirst', hsecond, hsecond', hnone⟩ := of_decide_eq_true hplay
  have made : m.Made := .map (.share (.map .empty hmap) hshare) hmap'
  obtain ⟨hstores, -⟩ := shared_pages_exact made 0 0x1ffe
  obtain ⟨-, hloads⟩ := shared_pages_exact (made.store hstore) 0 0x1ffe
  obtain ⟨hrefused, -⟩ := shared_pages_exact made 0 0x2ffe
  have written := hstores [1, 2, 3, 4]
  have refused := hrefused [5, 6, 7, 8]
  have out : m.OutOfReach 0 0x2ffe 4 := .inr ⟨2, by decide, hnone⟩
  have same : m.SharesFrame 0 1 0x2000 := ⟨_, _, hsecond, hsecond', rfl⟩
  have other : ¬ m.SharesFrame 0 1 0x1fff := by
    rintro ⟨p, q, hp, hq, hframe⟩
    cases hfirst.symm.trans hp
    cases hfirst'.symm.trans hq
    exact absurd hframe (by decide)
  refine ⟨m, m', made, hstore, ((hloads 4).byPages _ rfl).1 _ hload,
    written.shared m' hstore 1 0x2000 (by decide) (by decide) same, ?_, out, ?_⟩
  · rw [written.others m' hstore 1 0x1fff fun h => other h.2.2, hzero]
  · rw [refused.byPages, refused.refused.2 out]

end SyncKernel.Memory
