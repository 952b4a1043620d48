import SyncKernel.Bytes

/-!
# Saved registers

When a process enters the kernel its registers are saved in a `TrapFrame`, and it resumes from that
frame. The registers have a fixed order (`Register.all`), which is their order in memory. Two bits
of the status register matter here: the previous privilege (set for a trap out of the kernel itself)
and the interrupt flag that is restored on return.
-/

namespace SyncKernel

/-- The saved registers, in memory order: arguments and results `a`, temporaries `t`, preserved `s`,
return address, stack, global and thread pointers, program counter and status. -/
inductive Register where
  | a0 | a1 | a2 | a3 | a4 | a5 | a6 | a7
  | t0 | t1 | t2 | t3 | t4 | t5 | t6
  | s0 | s1 | s2 | s3 | s4 | s5 | s6 | s7 | s8 | s9 | s10 | s11
  | ra | sp | gp | tp | pc | status
deriving DecidableEq, Repr

/-- The number of saved registers. -/
abbrev registerCount : Nat := 33

namespace Register

/-- All registers, in memory order. -/
def all : List Register :=
  [a0, a1, a2, a3, a4, a5, a6, a7, t0, t1, t2, t3, t4, t5, t6,
    s0, s1, s2, s3, s4, s5, s6, s7, s8, s9, s10, s11, ra, sp, gp, tp, pc, status]

/-- The position of a register in memory order. -/
def index : Register → Fin registerCount
  | a0 => 0 | a1 => 1 | a2 => 2 | a3 => 3 | a4 => 4 | a5 => 5 | a6 => 6 | a7 => 7
  | t0 => 8 | t1 => 9 | t2 => 10 | t3 => 11 | t4 => 12 | t5 => 13 | t6 => 14
  | s0 => 15 | s1 => 16 | s2 => 17 | s3 => 18 | s4 => 19 | s5 => 20 | s6 => 21 | s7 => 22
  | s8 => 23 | s9 => 24 | s10 => 25 | s11 => 26
  | ra => 27 | sp => 28 | gp => 29 | tp => 30 | pc => 31 | status => 32

/-- The name of a register. -/
def name : Register → String
  | a0 => "a0" | a1 => "a1" | a2 => "a2" | a3 => "a3" | a4 => "a4" | a5 => "a5" | a6 => "a6"
  | a7 => "a7"
  | t0 => "t0" | t1 => "t1" | t2 => "t2" | t3 => "t3" | t4 => "t4" | t5 => "t5" | t6 => "t6"
  | s0 => "s0" | s1 => "s1" | s2 => "s2" | s3 => "s3" | s4 => "s4" | s5 => "s5" | s6 => "s6"
  | s7 => "s7" | s8 => "s8" | s9 => "s9" | s10 => "s10" | s11 => "s11"
  | ra => "ra" | sp => "sp" | gp => "gp" | tp => "tp" | pc => "pc" | status => "status"

/-- The register of a name. -/
def ofName? (n : String) : Option Register :=
  all.find? fun r => r.name = n

/-- The register at the position of `r` is `r`. -/
theorem all_index (r : Register) : all[r.index]? = some r := by
  cases r <;> rfl

/-- Different registers stand at different positions. -/
theorem index_injective {r r' : Register} (h : r.index = r'.index) : r = r' := by
  have := all_index r
  rw [h, all_index r'] at this
  exact (Option.some.inj this).symm

end Register

/-- The saved registers of a process. -/
structure TrapFrame where
  /-- The values, in memory order. -/
  values : Vector UInt64 registerCount
deriving DecidableEq

namespace TrapFrame

/-- The frame with every register zero. -/
def zero : TrapFrame := ⟨Vector.replicate registerCount 0⟩

instance : Inhabited TrapFrame := ⟨zero⟩

/-- The value of a register. -/
def get (f : TrapFrame) (r : Register) : UInt64 :=
  f.values[r.index]

/-- The frame with one register set. -/
def set (f : TrapFrame) (r : Register) (v : UInt64) : TrapFrame :=
  ⟨f.values.set r.index v r.index.isLt⟩

/-- A register that was set holds the value, the others hold what they held. -/
theorem get_set (f : TrapFrame) (r r' : Register) (v : UInt64) :
    (f.set r v).get r' = if r = r' then v else f.get r' := by
  by_cases h : r = r'
  · subst h; simp [get, set]
  · have : (r.index : Nat) ≠ r'.index := fun hi => h (Register.index_injective (Fin.ext hi))
    simp [get, set, h, Vector.getElem_set_ne, this]

/-- Status bit: the trap came out of the kernel. -/
def fromKernelBit : UInt64 := 256

/-- Status bit: interrupts are on after the return. -/
def interruptBit : UInt64 := 32

/-- The first frame of a user program that starts at `entry` with the stack pointer `sp`. -/
def newUser (entry sp : UInt64) : TrapFrame :=
  ((zero.set .pc entry).set .sp sp).set .status interruptBit

/-- Whether the trap came out of user code. -/
def fromUser (f : TrapFrame) : Bool :=
  f.get .status &&& fromKernelBit == 0

/-- The frame that returns to user code with interrupts on, whatever its status was. -/
def forceUser (f : TrapFrame) : TrapFrame :=
  f.set .status (f.get .status &&& ~~~fromKernelBit ||| interruptBit)

/-- The number of the system call a frame asks for. -/
def callNumber (f : TrapFrame) : UInt64 :=
  f.get .a7

/-- The frame with the result of a system call in place. -/
def setReturn (f : TrapFrame) (v : UInt64) : TrapFrame :=
  f.set .a0 v

/-- The result of a call stands in its register. -/
@[simp] theorem get_setReturn (f : TrapFrame) (v : UInt64) : (f.setReturn v).get .a0 = v := by
  rw [setReturn, get_set, if_pos rfl]

/-- The result of a call leaves the other registers. -/
theorem get_setReturn_of_ne (f : TrapFrame) (v : UInt64) {r : Register} (h : r ≠ .a0) :
    (f.setReturn v).get r = f.get r := by
  rw [setReturn, get_set, if_neg h.symm]

/-- The number of bytes of a frame in memory. -/
abbrev byteSize : Nat := 8 * registerCount

/-- The bytes of a frame: its registers in memory order, eight bytes each. -/
def toBytes (f : TrapFrame) : List UInt8 :=
  f.values.toList.flatMap word64Bytes

/-- The frame whose registers stand in the first `byteSize` bytes of a list. -/
def ofBytes (bs : List UInt8) : TrapFrame :=
  ⟨Vector.ofFn fun i => word64 (bs.drop (8 * i))⟩

@[simp] theorem length_toBytes (f : TrapFrame) : f.toBytes.length = byteSize := by
  rw [toBytes, length_flatMap_word64Bytes, Vector.length_toList]

/-- The registers are read back from their bytes, whatever follows them. -/
theorem ofBytes_toBytes_append (f : TrapFrame) (rest : List UInt8) :
    ofBytes (f.toBytes ++ rest) = f := by
  obtain ⟨values⟩ := f
  refine congrArg mk (Vector.ext fun i hi => ?_)
  rw [Vector.getElem_ofFn, toBytes, word64_drop_flatMap rest (by simpa using hi)]
  exact Vector.getElem_toList ..

end TrapFrame

end SyncKernel
