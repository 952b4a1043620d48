/-!
# Time

Time is a count of milliseconds in a 64-bit word. The clock is moved from outside, by ticks
(`Clock.advance`) or to a known time (`Clock.set`); the kernel only reads it. A deadline is the time
at which a call gives up.
-/

namespace SyncKernel

/-- A time or a span of time in milliseconds. -/
abbrev Millis := UInt64

/-- The clock the kernel reads. -/
structure Clock where
  /-- The time now. -/
  now : Millis
deriving DecidableEq, Repr, Inhabited

namespace Clock

/-- The clock `ms` milliseconds later, modulo `2 ^ 64`. -/
def advance (c : Clock) (ms : Millis) : Clock :=
  ⟨c.now + ms⟩

/-- The clock set to `ms`; an earlier time leaves it as it is. -/
def set (c : Clock) (ms : Millis) : Clock :=
  if c.now ≤ ms then ⟨ms⟩ else c

end Clock

/-- The time `timeout` after `now`; the last representable time if that is later. -/
def deadlineAfter (now timeout : Millis) : Millis :=
  UInt64.ofNat (min (now.toNat + timeout.toNat) (UInt64.size - 1))

/-- Whether there is a deadline and `now` has reached it. -/
def deadlineElapsed (deadline : Option Millis) (now : Millis) : Bool :=
  deadline.any fun d => decide (d ≤ now)

end SyncKernel
