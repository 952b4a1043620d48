import SyncKernel.Kernel

/-!
# Loading programs

A new process needs an address space and first registers. An `Image` lists the regions to map and,
if wanted, a page that is shared with another address space; `Kernel.load` builds the space and
enters the process.
-/

namespace SyncKernel

/-- A region of an address space. -/
structure Region where
  /-- The first address. -/
  start : UInt64
  /-- The number of bytes. -/
  length : UInt64
  /-- The permissions of its pages. -/
  flags : PageFlags

/-- A page that a new address space takes over from another one. -/
structure SharedPage where
  /-- The address space that has the page. -/
  space : SpaceId
  /-- An address of the page. -/
  address : UInt64
  /-- Its permissions in the new space. -/
  flags : PageFlags

/-- What a new process starts with. -/
structure Image where
  /-- The regions, mapped in order. -/
  regions : List Region
  /-- The page taken over from another space, mapped last. -/
  shared : Option SharedPage
  /-- The first registers. -/
  frame : TrapFrame

/-- Map a list of regions in order. -/
def Memory.mapRegions (m : Memory) (s : SpaceId) (regions : List Region) : Except Fault Memory :=
  regions.foldlM (fun m r => m.map s r.start r.length r.flags) m

/-- Map a page shared with another space, if there is one. -/
def Memory.mapShared (m : Memory) (s : SpaceId) : Option SharedPage → Except Errno Memory
  | none => .ok m
  | some page => m.share page.space s page.address page.flags

/-- Build an address space for an image and enter a process that runs in it. -/
def Kernel.load (image : Image) : Step (Except Errno Pid) := do
  let k ← get
  let (space, memory) := k.memory.newSpace
  match memory.mapRegions space image.regions with
  | .error fault => throw fault
  | .ok memory =>
    match memory.mapShared space image.shared with
    | .error e => return .error e
    | .ok memory =>
      set { k with memory }
      spawn space image.frame

end SyncKernel
