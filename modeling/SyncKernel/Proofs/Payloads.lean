import SyncKernel.Proofs.Messages
import SyncKernel.Proofs.UserAccess

/-!
# Payloads are copied whole or not at all

A copy between two address spaces takes place exactly if the sender may read all of the source and
the receiver may write all of the place it goes to (`Memory.copy_eq_ok`). Then the place holds what
the source held before, even where the two overlap in a shared page, and nothing else changed
(`Memory.Copies`): the bytes are all read before the first of them is written, which is why the
first lemma about a copy splits it into a read and a write.

A message that passes gives the receiver its word, whether or not its payload can be copied
(`Population.Passed`). The permissions are those of the moment in which it passes, not of the one in
which it was sent. An attempt to pass a message stops only if there is no buffer for the payload
(`Population.TooLong`), and otherwise either passes it or leaves everything as it was
(`attempt_all_or_nothing`).
-/

namespace SyncKernel

namespace Memory

variable {m m' : Memory} {source target : SpaceId} {src dst : UInt64} {len : Nat}

/-- The bytes that one address space held at `src` stand at `dst` in another one, and nothing else
changed. -/
def Copies (m : Memory) (source target : SpaceId) (src dst len : Nat) (m' : Memory) : Prop :=
  ∃ data, data.length = len ∧ m.Holds source src data ∧ m.Overwrites target dst data m'

/-- A copy is a read and then a write of what was read. -/
theorem copy_eq_ok : m.copy source target src dst len = .ok m' ↔
    ∃ data, m.userRead source src len = .ok data ∧ m.userWrite target dst data = .ok m' := by
  unfold copy
  cases m.userRead source src len <;> simp

/-- A copy takes place where the source may be read and the place it goes to may be written. -/
theorem Made.exists_copy (made : m.Made) (hsrc : m.UserRange source .toRead src.toNat len)
    (hdst : m.UserRange target .toWrite dst.toNat len) :
    ∃ m', m.copy source target src dst len = .ok m' ∧
      m.Copies source target src.toNat dst.toNat len m' := by
  obtain ⟨data, hread, hlength, hholds⟩ := userRead_of_check (userCheck_iff.2 hsrc)
  rw [← hlength] at hdst
  obtain ⟨m', hwrite⟩ := exists_userWrite (userCheck_iff.2 hdst)
  exact ⟨m', copy_eq_ok.2 ⟨data, hread, hwrite⟩, data, hlength, hholds, made.overwrites hwrite⟩

/-- What is copied could be read, and written where it went. -/
theorem ranges_of_copy (h : m.copy source target src dst len = .ok m') :
    m.UserRange source .toRead src.toNat len ∧ m.UserRange target .toWrite dst.toNat len := by
  obtain ⟨data, hread, hwrite⟩ := copy_eq_ok.1 h
  have hdst := userCheck_iff.1 (check_of_userWrite hwrite)
  rw [length_of_userRead hread] at hdst
  exact ⟨userCheck_iff.1 (check_of_userRead hread), hdst⟩

end Memory

/-- The payload of a message can be copied from `s` to `r`: there is one and room for it, `s` may
read it, and `r` may write where it goes. -/
structure Process.Transfers (m : Memory) (s r : Process) (msg : Message) : Prop where
  something : r.portion msg ≠ 0
  readable : m.UserRange s.space .toRead msg.source.toNat (r.portion msg).toNat
  writable : m.UserRange r.space .toWrite r.receive.buffer.toNat (r.portion msg).toNat

namespace Population

variable {w w' : Population} {s r : Process} {msg : Message}

/-- The message `msg` passed from `s` to `r`, which has the record `r'` afterwards. -/
structure Passed (w : Population) (s r : Process) (msg : Message) (r' : Process)
    (w' : Population) : Prop where
  /-- The receiver has the message, and nothing else in its record changed. -/
  record : r' = r.handed s.pid msg.value r'.receive.size r'.receive.perm
  woken : r'.status = .runnable ∧ r'.receive.receiving = false
  told : r'.receive.sender = some s.pid ∧ r'.receive.value = msg.value ∧
    r'.frame.get .a0 = msg.value
  /-- The record of the receiver is the only one that changed, that of the sender stays. -/
  receiver : w'.procs.get? r.pid = some r'
  sender : w'.procs.get? s.pid = some s
  others : ∀ i, r.pid.slot ≠ i → w'.procs.at? i = w.procs.at? i
  /-- The payload is copied as it was before, if it can be, and otherwise dropped. -/
  copied : Process.Transfers w.memory s r msg →
    w.memory.Copies s.space r.space msg.source.toNat r.receive.buffer.toNat
        (r.portion msg).toNat w'.memory ∧
      r'.receive.size = r.portion msg ∧ r'.receive.perm = msg.perm
  dropped : ¬ Process.Transfers w.memory s r msg →
    w'.memory = w.memory ∧ r'.receive.size = 0 ∧ r'.receive.perm = 0
  /-- No byte changes but those that the receiver has at the place of the payload. -/
  outside : ∀ t c, (∀ i < (r.portion msg).toNat,
      w.memory.physical? t c ≠ w.memory.physical? r.space (r.receive.buffer.toNat + i)) →
    w'.memory.byte? t c = w.memory.byte? t c

/-- The process `target` waits for a message, and what it would get of the payload of this one of
another process is too long for any buffer. -/
def TooLong (w : Population) (sender target : Pid) (msg : Message) : Prop :=
  sender.slot ≠ target.slot ∧ ∃ s r, w.procs.get? sender = some s ∧ w.procs.get? target = some r ∧
    r.Receives ∧ bufferLimit < (r.portion msg).toNat

/-- What becomes of a payload: all of it is copied if it can be, and nothing otherwise. -/
theorem copyPayload_cases (made : w.memory.Made) {payload : Payload} {m' : Memory}
    (h : w.copyPayload s r msg = .ok (payload, m')) :
    (Process.Transfers w.memory s r msg ∧ payload = .copied (r.portion msg) ∧
        w.memory.Copies s.space r.space msg.source.toNat r.receive.buffer.toNat
          (r.portion msg).toNat m') ∨
      ¬ Process.Transfers w.memory s r msg ∧ m' = w.memory ∧ ∀ size, payload ≠ .copied size := by
  unfold copyPayload at h
  dsimp only at h
  split at h
  · next hsize =>
    cases h
    exact .inr ⟨fun can => can.something hsize, rfl, nofun⟩
  next hsize =>
  split at h
  · cases h
  by_cases can : Process.Transfers w.memory s r msg
  · obtain ⟨m₁, hm₁, hcopies⟩ := made.exists_copy can.readable can.writable
    rw [hm₁] at h
    cases h
    exact .inl ⟨can, rfl, hcopies⟩
  · refine .inr ⟨can, ?_⟩
    split at h
    · next hm₁ =>
      obtain ⟨hsrc, hdst⟩ := Memory.ranges_of_copy hm₁
      exact absurd ⟨hsize, hsrc, hdst⟩ can
    · cases h
      exact ⟨rfl, nofun⟩

/-- Handing a message to a process that waits for one passes it, if there is a buffer for the
payload. -/
theorem complete_passes (made : w.memory.Made) (hs : w.procs.get? s.pid = some s)
    (hne : s.pid.slot ≠ r.pid.slot) (wait : r.Receives)
    (short : (r.portion msg).toNat ≤ bufferLimit) :
    ∃ r' w', w.complete s r msg = .ok w' ∧ w.Passed s r msg r' w' := by
  obtain ⟨payload, m', hcopy⟩ := exists_copyPayload short w s
  obtain ⟨size, perm, w', hc, hmemory, hprocs, hsome, hnone⟩ := complete_of_copyPayload wait hcopy
  subst hmemory
  have hcopied : Process.Transfers w.memory s r msg →
      w.memory.Copies s.space r.space msg.source.toNat r.receive.buffer.toNat
        (r.portion msg).toNat w'.memory ∧ size = r.portion msg ∧ perm = msg.perm := by
    intro can
    obtain ⟨-, hpayload, hcopies⟩ | ⟨cannot, -⟩ := copyPayload_cases made hcopy
    · exact ⟨hcopies, hsome _ hpayload⟩
    · exact absurd can cannot
  have hdropped : ¬ Process.Transfers w.memory s r msg →
      w'.memory = w.memory ∧ size = 0 ∧ perm = 0 := by
    intro cannot
    obtain ⟨can, -⟩ | ⟨-, hsame, hpayload⟩ := copyPayload_cases made hcopy
    · exact absurd can cannot
    · exact ⟨hsame, hnone hpayload⟩
  generalize hr' : r.handed s.pid msg.value size perm = r' at hprocs
  have hpid : r'.pid = r.pid := by rw [← hr']; rfl
  refine ⟨r', w', hc, ?_⟩
  constructor
  case record => rw [← hr']; rfl
  case woken => rw [← hr']; exact ⟨rfl, rfl⟩
  case told => rw [← hr']; exact ⟨rfl, rfl, TrapFrame.get_setReturn _ _⟩
  case receiver => rw [hprocs, ← hpid]; exact ProcessTable.get?_put_self
  case sender =>
    rw [hprocs, ProcessTable.get?_put_of_ne (hpid ▸ hne.symm)]
    exact hs
  case others =>
    intro i hi
    rw [hprocs, ProcessTable.at?_put_of_ne (hpid ▸ hi)]
  case copied => rw [← hr']; exact hcopied
  case dropped => rw [← hr']; exact hdropped
  case outside =>
    intro t c hc
    by_cases can : Process.Transfers w.memory s r msg
    · obtain ⟨⟨data, hlength, -, hover⟩, -⟩ := hcopied can
      exact hover.others t c (hlength ▸ hc)
    · rw [(hdropped can).1]

/-- An attempt that finds another process that waits for a message hands it over. -/
theorem attempt_eq_complete (hs : w.procs.get? s.pid = some s) (hr : w.procs.get? r.pid = some r)
    (hne : s.pid.slot ≠ r.pid.slot) (wait : r.Receives) (msg : Message) :
    w.attempt s.pid r.pid msg = (w.complete s r msg).map fun w' => (.delivered, w') := by
  have hlive : w.procs.lookup r.pid = .ok r :=
    ProcessTable.lookup_eq_ok.2 ⟨hr, by rw [wait.1]; nofun⟩
  have hpair : w.procs.pair? s.pid r.pid = some (s, r) :=
    ProcessTable.pair?_eq_some.2 ⟨hne, hs, hr⟩
  have hwaits : (r.receive.receiving && r.status == .blocked) = true := by
    simp [wait.1, wait.2]
  simp only [attempt, hlive, if_neg hne, hpair, hwaits, if_true]
  rfl

/-- An attempt that finds nobody else who waits for a message changes nothing. -/
theorem attempt_leaves (sender target : Pid) (msg : Message)
    (h : ¬ (sender.slot ≠ target.slot ∧
      ∃ s r, w.procs.get? sender = some s ∧ w.procs.get? target = some r ∧ r.Receives)) :
    ∃ o, w.attempt sender target msg = .ok (o, w) ∧ o ≠ .delivered := by
  unfold attempt
  split
  · exact ⟨_, rfl, nofun⟩
  split
  · exact ⟨_, rfl, nofun⟩
  split
  · exact ⟨_, rfl, nofun⟩
  next s r hpair =>
  obtain ⟨hslot, hs, hr⟩ := ProcessTable.pair?_eq_some.1 hpair
  have hnot : ¬ (r.receive.receiving && r.status == .blocked) = true := by
    intro hwaits
    have wait : r.Receives := by simpa [Process.Receives, and_comm] using hwaits
    exact h ⟨hslot, s, r, hs, hr, wait⟩
  rw [if_neg hnot]
  exact ⟨_, rfl, nofun⟩

/-- An attempt to pass a message with a payload that is too long for any buffer stops. -/
theorem TooLong.attempt {sender target : Pid} (h : w.TooLong sender target msg) :
    w.attempt sender target msg = .error .bufferTooLong := by
  obtain ⟨hslot, s, r, hs, hr, wait, hlong⟩ := h
  obtain ⟨-, rfl⟩ := ProcessTable.get?_eq_some.1 hs
  obtain ⟨-, rfl⟩ := ProcessTable.get?_eq_some.1 hr
  have hcomplete : w.complete s r msg = .error .bufferTooLong :=
    (complete_eq_error wait).2 (copyPayload_eq_error.2 ⟨rfl, hlong⟩)
  rw [attempt_eq_complete hs hr hslot wait, hcomplete]
  rfl

/-- An attempt to pass a message stops if there is no buffer for what would be copied of the
payload. Any other attempt ends: it passes the message exactly if the target is another process that
waits for one, and otherwise leaves everything as it was. -/
theorem attempt_all_or_nothing (made : w.memory.Made) (sender target : Pid) (msg : Message) :
    (w.TooLong sender target msg → w.attempt sender target msg = .error .bufferTooLong) ∧
    (¬ w.TooLong sender target msg → ∃ o w', w.attempt sender target msg = .ok (o, w') ∧
      (o = .delivered ↔ sender.slot ≠ target.slot ∧
        ∃ s r, w.procs.get? sender = some s ∧ w.procs.get? target = some r ∧ r.Receives) ∧
      (o ≠ .delivered → w' = w) ∧
      (o = .delivered → ∃ s r r', w.procs.get? sender = some s ∧ w.procs.get? target = some r ∧
        w.Passed s r msg r' w')) := by
  refine ⟨TooLong.attempt, fun fits => ?_⟩
  by_cases can : sender.slot ≠ target.slot ∧
    ∃ s r, w.procs.get? sender = some s ∧ w.procs.get? target = some r ∧ r.Receives
  · obtain ⟨hslot, s, r, hs, hr, wait⟩ := can
    have short : (r.portion msg).toNat ≤ bufferLimit :=
      Nat.not_lt.1 fun hlong => fits ⟨hslot, s, r, hs, hr, wait, hlong⟩
    obtain ⟨-, rfl⟩ := ProcessTable.get?_eq_some.1 hs
    obtain ⟨-, rfl⟩ := ProcessTable.get?_eq_some.1 hr
    obtain ⟨r', w', hc, hpassed⟩ := complete_passes made hs hslot wait short
    refine ⟨.delivered, w', ?_, ?_, fun h => absurd rfl h,
      fun _ => ⟨s, r, r', hs, hr, hpassed⟩⟩
    · rw [attempt_eq_complete hs hr hslot wait, hc]
      rfl
    · exact ⟨fun _ => ⟨hslot, s, r, hs, hr, wait⟩, fun _ => rfl⟩
  · obtain ⟨o, ha, ho⟩ := attempt_leaves sender target msg can
    exact ⟨o, w, ha, ⟨fun h => absurd h ho, fun h => absurd h can⟩, fun _ => rfl,
      fun h => absurd h ho⟩

/-- A process with a page that it shares. -/
def sharing : Process where
  pid := .ofSlot 1 0
  status := .running
  frame := .newUser 0 0
  space := 0

/-- A process that waits for a message, with room for six bytes on the shared page. -/
def waiting : Process where
  pid := .ofSlot 1 1
  status := .blocked
  frame := .newUser 0 0
  space := 1
  receive := { receiving := true, buffer := 0x10004, capacity := 6 }

/-- Of eight bytes that are sent, the first six are received, and the place they go to begins with
the fifth of them: the two processes share the page. -/
theorem attempt_all_or_nothing_of_overlap :
    ∃ (w w' : Population) (r' : Process), w.memory.Made ∧
      w.attempt sharing.pid waiting.pid ⟨7, 0x10000, 8, 3⟩ = .ok (.delivered, w') ∧
      w.Passed sharing waiting ⟨7, 0x10000, 8, 3⟩ r' w' ∧
      w.memory.bytes? 0 0x10000 8 = some [1, 2, 3, 4, 5, 6, 7, 8] ∧
      w'.memory.bytes? 1 0x10004 6 = some [1, 2, 3, 4, 5, 6] ∧
      r'.receive.size = 6 ∧ r'.receive.perm = 3 := by
  have hplay : ((({} : Memory).map 0 0x10000 0x1000 .userReadWrite).toOption.any fun m =>
      (m.share 0 1 0x10000 .userReadWrite).toOption.any fun m =>
      (m.store 0 0x10000 [1, 2, 3, 4, 5, 6, 7, 8]).toOption.any fun m =>
        m.userCheck 0 0x10000 6 .toRead = .ok () ∧ m.userCheck 1 0x10004 6 .toWrite = .ok () ∧
          m.bytes? 0 0x10000 8 = some [1, 2, 3, 4, 5, 6, 7, 8] ∧
          m.bytes? 0 0x10000 6 = some [1, 2, 3, 4, 5, 6]) = true := by
    decide +kernel
  obtain ⟨m₁, hmap, hplay⟩ := Memory.exists_of_any_toOption hplay
  obtain ⟨m₂, hshare, hplay⟩ := Memory.exists_of_any_toOption hplay
  obtain ⟨m, hstore, hplay⟩ := Memory.exists_of_any_toOption hplay
  obtain ⟨hread, hwrite, height, hsix⟩ := of_decide_eq_true hplay
  have made : m.Made := .store (.share (.map .empty hmap) hshare) hstore
  let w : Population := { procs := (({} : ProcessTable).put sharing).put waiting, memory := m }
  have hs : w.procs.get? sharing.pid = some sharing :=
    (ProcessTable.get?_put_of_ne (by decide)).trans ProcessTable.get?_put_self
  have hr : w.procs.get? waiting.pid = some waiting := ProcessTable.get?_put_self
  have fits : ¬ w.TooLong sharing.pid waiting.pid ⟨7, 0x10000, 8, 3⟩ := by
    rintro ⟨-, s, r, -, hr', -, hlong⟩
    cases hr.symm.trans hr'
    exact absurd hlong (by decide)
  obtain ⟨o, w', ha, hdelivered, -, hpassed⟩ :=
    (attempt_all_or_nothing (w := w) made sharing.pid waiting.pid ⟨7, 0x10000, 8, 3⟩).2 fits
  have ho : o = .delivered := hdelivered.2 ⟨by decide, sharing, waiting, hs, hr, by decide⟩
  obtain ⟨s, r, r', hs', hr', passed⟩ := hpassed ho
  cases hs.symm.trans hs'
  cases hr.symm.trans hr'
  have can : Process.Transfers m sharing waiting ⟨7, 0x10000, 8, 3⟩ :=
    ⟨by decide, Memory.userCheck_iff.1 hread, Memory.userCheck_iff.1 hwrite⟩
  obtain ⟨⟨data, hlength, hholds, hover⟩, hsize, hperm⟩ := passed.copied can
  have hdata : m.bytes? 0 0x10000 6 = some data := Memory.bytes?_eq_some.2 ⟨hlength, hholds⟩
  cases hsix.symm.trans hdata
  exact ⟨w, w', r', made, ho ▸ ha, passed, height, Memory.bytes?_eq_some.2 ⟨rfl, hover.holds⟩,
    hsize, hperm⟩

end Population

end SyncKernel
