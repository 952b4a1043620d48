import SyncKernel.TrapFrame

/-!
# Signal frames

Before a handler runs, the interrupted registers and the signal mask are written to the user stack
as a `SignalFrame`; returning from the handler reads them back (`SignalFrame.ofBytes_toBytes`). All
fields are 64-bit words, the registers first.
-/

namespace SyncKernel

/-- What is written to the user stack when a handler is called. -/
structure SignalFrame where
  /-- The interrupted registers. -/
  context : TrapFrame := .zero
  /-- The word of the mask before the delivery. -/
  oldMask : UInt64 := 0
  /-- The number of the signal. -/
  signal : UInt64 := 0
  /-- The value of the signal. -/
  value : UInt64 := 0
  /-- The address of the handler. -/
  handler : UInt64 := 0
  /-- The word of the options of the action. -/
  flags : UInt64 := 0
deriving DecidableEq

namespace SignalFrame

/-- The number of bytes of a frame. -/
abbrev byteSize : Nat := TrapFrame.byteSize + 5 * 8

/-- The bytes of a frame: the registers in memory order, then the other fields in order. -/
def toBytes (f : SignalFrame) : List UInt8 :=
  f.context.toBytes ++ [f.oldMask, f.signal, f.value, f.handler, f.flags].flatMap word64Bytes

/-- The frame in the first `byteSize` bytes of a list. -/
def ofBytes (bs : List UInt8) : SignalFrame :=
  let rest := bs.drop TrapFrame.byteSize
  { context := .ofBytes bs
    oldMask := word64 rest
    signal := word64 (rest.drop 8)
    value := word64 (rest.drop 16)
    handler := word64 (rest.drop 24)
    flags := word64 (rest.drop 32) }

@[simp] theorem length_toBytes (f : SignalFrame) : f.toBytes.length = byteSize := by
  rw [toBytes, List.length_append, TrapFrame.length_toBytes, length_flatMap_word64Bytes]
  rfl

/-- A frame is read back from its bytes. -/
theorem ofBytes_toBytes (f : SignalFrame) : ofBytes f.toBytes = f := by
  have hrest : f.toBytes.drop TrapFrame.byteSize =
      [f.oldMask, f.signal, f.value, f.handler, f.flags].flatMap word64Bytes ++ [] := by
    rw [toBytes, List.drop_left' f.context.length_toBytes, List.append_nil]
  have hword (i : Nat) (hi : i < 5) :=
    @word64_drop_flatMap [f.oldMask, f.signal, f.value, f.handler, f.flags] [] i hi
  rw [ofBytes, hrest]
  obtain ⟨context, oldMask, signal, value, handler, flags⟩ := f
  simp only [mk.injEq]
  exact ⟨TrapFrame.ofBytes_toBytes_append .., hword 0 (by decide), hword 1 (by decide),
    hword 2 (by decide), hword 3 (by decide), hword 4 (by decide)⟩

end SignalFrame

end SyncKernel
