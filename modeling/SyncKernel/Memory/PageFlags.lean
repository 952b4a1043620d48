/-!
# Permissions of a page

The low five bits of a page-table entry: valid, readable, writable, executable, and open to user
code.
-/

namespace SyncKernel

/-- The permissions of a mapped page. -/
structure PageFlags where
  /-- The entry is in use. -/
  valid : Bool := false
  /-- The page may be read. -/
  read : Bool := false
  /-- The page may be written. -/
  write : Bool := false
  /-- The page may be executed. -/
  exec : Bool := false
  /-- User code may use the page. -/
  user : Bool := false
deriving DecidableEq, Repr, Inhabited

namespace PageFlags

/-- The bits of a set of permissions, valid the lowest. -/
def bits (f : PageFlags) : Nat :=
  f.valid.toNat + 2 * f.read.toNat + 4 * f.write.toNat + 8 * f.exec.toNat + 16 * f.user.toNat

/-- The permissions among the low five bits of a number; higher bits are dropped. -/
def truncate (n : Nat) : PageFlags :=
  ⟨n.testBit 0, n.testBit 1, n.testBit 2, n.testBit 3, n.testBit 4⟩

/-- The permissions of a number that has no other bits. -/
def ofBits? (n : Nat) : Option PageFlags :=
  if n < 32 then some (truncate n) else none

/-- Whether all permissions of `need` are in `f`. -/
def contains (f need : PageFlags) : Bool :=
  (f.valid || !need.valid) && (f.read || !need.read) && (f.write || !need.write) &&
    (f.exec || !need.exec) && (f.user || !need.user)

/-- The permissions in either set. -/
def union (f g : PageFlags) : PageFlags :=
  ⟨f.valid || g.valid, f.read || g.read, f.write || g.write, f.exec || g.exec, f.user || g.user⟩

/-- A page in use. -/
def inUse : PageFlags := ⟨true, false, false, false, false⟩

/-- Permission to read. -/
def toRead : PageFlags := ⟨false, true, false, false, false⟩

/-- Permission to write. -/
def toWrite : PageFlags := ⟨false, false, true, false, false⟩

/-- Permission to execute. -/
def toExec : PageFlags := ⟨false, false, false, true, false⟩

/-- A page that user code may read. -/
def userRead : PageFlags := ⟨true, true, false, false, true⟩

/-- A page that user code may read and write. -/
def userReadWrite : PageFlags := ⟨true, true, true, false, true⟩

/-- What user code needs of a page, beyond the kind of access: it is in use and open to user code.
-/
def userPage : PageFlags := ⟨true, false, false, false, true⟩

/-- What is in a part of some permissions is in all of them. -/
theorem contains_trans {f g h : PageFlags} (hfg : f.contains g = true)
    (hgh : g.contains h = true) : f.contains h = true := by
  simp only [contains, Bool.and_eq_true, Bool.or_eq_true, Bool.not_eq_true'] at *
  grind

end PageFlags

end SyncKernel
