import Std.Data.ExtTreeMap
import SyncKernel.Bytes
import SyncKernel.Errno
import SyncKernel.Limits
import SyncKernel.Memory.PageFlags

/-!
# Memory

Memory is physical bytes together with the pages that address spaces map. A page of a space points
to a frame, that is `pageSize` physical bytes; two spaces that map the same frame share its bytes. A
space is a number, and its pages are the entries of `Memory.pages` under that number.

`Memory.load` and `Memory.store` move bytes without asking for permissions and answer `badAddress`
where a page is missing; `Memory.check` asks for permissions. `Memory.enter` and `Memory.leave`
switch an address space in and out, and `leave_enter` says that the switch leaves no trace.
-/

namespace SyncKernel

/-- The number of an address space. -/
abbrev SpaceId := Nat

/-- A page of an address space, by its number: its first address over `pageSize`. -/
structure PageKey where
  /-- The address space. -/
  space : SpaceId
  /-- The number of the page. -/
  page : Nat
deriving DecidableEq

/-- The first address of the page that holds an address. -/
def pageStart (a : UInt64) : UInt64 :=
  UInt64.ofNat (a.toNat / pageSize * pageSize)

namespace PageKey

/-- Pages are ordered by space, then by number. -/
def order : PageKey → PageKey → Ordering :=
  compareLex (compareOn space) (compareOn page)

instance : Std.TransCmp order :=
  inferInstanceAs (Std.TransCmp (compareLex (compareOn space) (compareOn page)))

instance : Std.LawfulEqCmp order where
  compare_self := by intro a; simp [order, compareLex, compareOn]
  eq_of_compare {a b} h := by
    simp only [order, compareLex, compareOn, Ordering.then_eq_eq, Nat.compare_eq_eq] at h
    cases a; cases b; simp_all

end PageKey

/-- A mapped page: its permissions and the frame that holds its bytes. -/
structure Page where
  /-- The permissions. -/
  flags : PageFlags
  /-- The number of the frame. -/
  frame : Nat
deriving DecidableEq

/-- Physical bytes and the address spaces over them. -/
structure Memory where
  /-- The physical bytes; a byte without an entry is zero. -/
  bytes : Std.ExtTreeMap Nat UInt8 := ∅
  /-- The mapped pages of all address spaces. -/
  pages : Std.ExtTreeMap PageKey Page PageKey.order := ∅
  /-- The first frame that no page has been given. -/
  nextFrame : Nat := 0
  /-- The first number that no address space has been given. -/
  nextSpace : SpaceId := 0
  /-- The address spaces that are switched in, the innermost first. -/
  active : List SpaceId := []

namespace Memory

instance : Inhabited Memory := ⟨{}⟩

/-! ## Address spaces -/

/-- A new address space with no pages. -/
def newSpace (m : Memory) : SpaceId × Memory :=
  (m.nextSpace, { m with nextSpace := m.nextSpace + 1 })

/-- The page of a space that holds an address. -/
def pageAt? (m : Memory) (s : SpaceId) (a : Nat) : Option Page :=
  m.pages[(⟨s, a / pageSize⟩ : PageKey)]?

/-- The permissions of the page that holds an address. -/
def translate (m : Memory) (s : SpaceId) (a : Nat) : Option PageFlags :=
  (m.pageAt? s a).map (·.flags)

/-- Map a page onto a fresh frame of zeros, in place of what was mapped there. -/
def mapPage (m : Memory) (s : SpaceId) (flags : PageFlags) (page : Nat) : Memory :=
  { m with
    pages := m.pages.insert ⟨s, page⟩ ⟨flags.union .inUse, m.nextFrame⟩
    nextFrame := m.nextFrame + 1 }

/-- Map every page that holds one of the `len` addresses from `va`, or the page of `va` if there are
none. The computation walks past the last page, so the highest page cannot be mapped. -/
def map (m : Memory) (s : SpaceId) (va len : UInt64) (flags : PageFlags) : Except Fault Memory :=
  let stop := va.toNat + max len.toNat 1
  let first := va.toNat / pageSize
  if UInt64.size - pageSize < stop then .error .addressOverflow
  else .ok ((List.range' first ((stop - 1) / pageSize + 1 - first)).foldl (mapPage · s flags) m)

/-- Map the frame behind an address of `source` at the same address of `target`. -/
def share (m : Memory) (source target : SpaceId) (va : UInt64) (flags : PageFlags) :
    Except Errno Memory :=
  match m.pageAt? source va.toNat with
  | none => .error .badAddress
  | some p =>
    .ok { m with
      pages := m.pages.insert ⟨target, va.toNat / pageSize⟩ ⟨flags.union .inUse, p.frame⟩ }

/-! ## Bytes -/

/-- The physical address behind an address of a space. -/
def physical? (m : Memory) (s : SpaceId) (a : Nat) : Option Nat :=
  (m.pageAt? s a).map fun p => p.frame * pageSize + a % pageSize

/-- The byte at an address of a space. -/
def byte? (m : Memory) (s : SpaceId) (a : Nat) : Option UInt8 :=
  (m.physical? s a).map fun x => m.bytes.getD x 0

/-- The bytes at `len` addresses from `a`, if all of them are mapped. -/
def bytes? (m : Memory) (s : SpaceId) (a : Nat) : Nat → Option (List UInt8)
  | 0 => some []
  | len + 1 =>
    match m.byte? s a with
    | some b => (bytes? m s (a + 1) len).map (b :: ·)
    | none => none

/-- Write a list of bytes from address `a` on, if all their addresses are mapped. -/
def setBytes? (m : Memory) (s : SpaceId) (a : Nat) : List UInt8 → Option Memory
  | [] => some m
  | b :: bs =>
    match m.physical? s a with
    | some x => setBytes? { m with bytes := m.bytes.insert x b } s (a + 1) bs
    | none => none

/-- Read `len` bytes from `va` on. The end must be an address, and every byte must be mapped. -/
def load (m : Memory) (s : SpaceId) (va : UInt64) (len : Nat) : Except Errno (List UInt8) :=
  if va.toNat + len < UInt64.size then (m.bytes? s va.toNat len).elim (.error .badAddress) .ok
  else .error .badAddress

/-- Write bytes from `va` on. The end must be an address, and every byte must be mapped; a refused
write changes nothing. -/
def store (m : Memory) (s : SpaceId) (va : UInt64) (data : List UInt8) : Except Errno Memory :=
  if va.toNat + data.length < UInt64.size then
    (m.setBytes? s va.toNat data).elim (.error .badAddress) .ok
  else .error .badAddress

/-- The little-endian 32-bit word at an address, whatever its permissions. -/
def peek32? (m : Memory) (s : SpaceId) (va : UInt64) : Option UInt32 :=
  (m.load s va 4).toOption.map word32

/-- Write a 32-bit word, whatever the permissions. -/
def poke32 (m : Memory) (s : SpaceId) (va : UInt64) (w : UInt32) : Except Errno Memory :=
  m.store s va (word32Bytes w)

/-! ## Permissions -/

/-- Whether `count` pages from number `page` on all have the permissions `need`. -/
def pagesAllow (m : Memory) (s : SpaceId) (need : PageFlags) (page : Nat) : Nat → Bool
  | 0 => true
  | count + 1 =>
    (m.pages[(⟨s, page⟩ : PageKey)]?).any (fun p => p.flags.contains need) &&
      pagesAllow m s need (page + 1) count

/-- Check that `len` bytes from `va` on are user memory with the permissions `need`: they end within
the user limit, and each of their pages is in use, open to user code and allows the access. -/
def check (m : Memory) (s : SpaceId) (va : UInt64) (len : Nat) (need : PageFlags) :
    Except Errno Unit :=
  let stop := va.toNat + len
  let first := va.toNat / pageSize
  if userLimit < stop then .error .badAddress
  else if len = 0 then .ok ()
  else if m.pagesAllow s (need.union .userPage) first ((stop - 1) / pageSize + 1 - first) then
    .ok ()
  else .error .badAddress

/-! ## Switching address spaces -/

/-- Switch to an address space. -/
def enter (m : Memory) (s : SpaceId) : Memory :=
  { m with active := s :: m.active }

/-- Switch back to the address space that was in before. -/
def leave (m : Memory) : Memory :=
  { m with active := m.active.tail }

/-- Whether an address space is switched in. -/
def isActive (m : Memory) (s : SpaceId) : Bool :=
  m.active.contains s

/-- Switching to a space and back leaves the memory as it was. -/
theorem leave_enter (m : Memory) (s : SpaceId) : (m.enter s).leave = m := rfl

end Memory

end SyncKernel
