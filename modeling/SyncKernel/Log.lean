/-!
# Log records

A log record has a level, the name of the part of the system that wrote it, and a text. The console
shows the records up to a chosen level, one line each.
-/

namespace SyncKernel

/-- The weight of a log record, the most urgent first. -/
inductive Level where
  | error | warn | info | debug | trace
deriving DecidableEq, Repr

namespace Level

/-- The position of a level: a greater one is less urgent. -/
def rank : Level → Nat
  | error => 1
  | warn => 2
  | info => 3
  | debug => 4
  | trace => 5

/-- The name of a level on the console. -/
def label : Level → String
  | error => "ERROR"
  | warn => "WARN"
  | info => "INFO"
  | debug => "DEBUG"
  | trace => "TRACE"

end Level

/-- The level up to which records are shown; none are shown without one. -/
abbrev LevelFilter := Option Level

/-- Whether a filter shows the records of a level. -/
def LevelFilter.shows (filter : LevelFilter) (level : Level) : Bool :=
  filter.any fun most => decide (level.rank ≤ most.rank)

/-- The filter of a kernel whose log was not set otherwise. -/
def defaultFilter : LevelFilter := some .info

/-- A log record. -/
structure LogRecord where
  /-- The level. -/
  level : Level
  /-- The part of the system that wrote it. -/
  target : String
  /-- The text. -/
  message : String
deriving DecidableEq, Repr

namespace LogRecord

/-- The console line of a record: its level in five columns and its target in brackets, then the
text. -/
def line (r : LogRecord) : String :=
  let label := r.level.label
  let fill := String.ofList (List.replicate (5 - label.length) ' ')
  "[" ++ label ++ fill ++ " " ++ r.target ++ "] " ++ r.message ++ "\n"

/-- What a console shows of a record. -/
def shown (filter : LevelFilter) (r : LogRecord) : String :=
  if filter.shows r.level then r.line else ""

end LogRecord

end SyncKernel
