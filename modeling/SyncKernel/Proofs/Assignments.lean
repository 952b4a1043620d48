import Mathlib
import SyncKernel.Configuration.Generate

/-!
# The configuration of the menu program

A line of the menu program gives a value to a name if the name is what stands before its first
equals sign (`valueOf?`). The reader cuts the name once more, at its first underscore, and looks the
two halves up; for a section without an underscore that finds the value of the last line for the
name (`get?_menuSource`). A value is a truth value, a numeral of 64 bits, or else a text
(`Reads`). So the constants that can be configured (`knobs`), and with them the whole file, depend
only on the last lines for their names (`assignments_determine_file`).
-/

namespace SyncKernel.Configuration

/-! ## Lines -/

section
variable {c : Char} {cs before after line group key : List Char}

/-- A line is split at the first place of the character. -/
theorem splitFirst_append_cons (hc : c ∉ before) (after : List Char) :
    splitFirst c (before ++ c :: after) = some (before, after) := by
  have hbefore : ∀ x ∈ before, (x != c) = true := by
    intro x hx
    simpa using fun h : x = c => hc (h ▸ hx)
  simp [splitFirst, List.takeWhile_append_of_pos hbefore, List.dropWhile_append_of_pos hbefore]

/-- A line is split at a character exactly if it occurs, at its first place. -/
theorem splitFirst_eq_some :
    splitFirst c cs = some (before, after) ↔ cs = before ++ c :: after ∧ c ∉ before := by
  constructor
  · intro h
    by_cases hc : c ∈ cs
    · obtain ⟨l₁, l₂, rfl, hnot⟩ := List.eq_append_cons_of_mem hc
      cases (splitFirst_append_cons hnot l₂).symm.trans h
      exact ⟨rfl, hnot⟩
    · simp [splitFirst, hc] at h
  · rintro ⟨rfl, hc⟩
    exact splitFirst_append_cons hc after

/-- The value that a line gives to a key: without blanks at its ends, the line is the key, an equals
sign, and the value with blanks around it. -/
def valueOf? (key line : List Char) : Option (List Char) :=
  ((trimBlanks line).dropPrefix? (key ++ ['='])).map trimBlanks

/-- A line assigns to a key exactly if it is the key, an equals sign and the value, up to blanks
around them. -/
theorem valueOf?_eq_some {v : List Char} : valueOf? key line = some v ↔
    ∃ rest, trimBlanks line = key ++ '=' :: rest ∧ trimBlanks rest = v := by
  simp [valueOf?, List.dropPrefix?_eq_some_iff]

/-- What a line assigns is what stands around its first equals sign, split at the first
underscore. -/
theorem assignmentOf?_eq_some {a : Assignment} : assignmentOf? line = some a ↔
    ∃ group key rest, trimBlanks line = group ++ '_' :: key ++ '=' :: rest ∧
      '=' ∉ group ++ '_' :: key ∧ '_' ∉ group ∧ group.head? ≠ some '#' ∧
      a = ⟨String.ofList group, String.ofList key, scalarOf (trimBlanks rest)⟩ := by
  unfold assignmentOf?
  split
  · next hnil => simp [hnil]
  · next cs hhash =>
    simp only [reduceCtorEq, false_iff]
    rintro ⟨group, key, rest, hcs, -, -, hhead, -⟩
    rw [hhash] at hcs
    cases group with
    | nil => simp at hcs
    | cons c group =>
      obtain ⟨rfl, -⟩ := List.cons.inj hcs
      exact hhead rfl
  · next hnil hhash =>
    simp only [Option.bind_eq_bind, Option.bind_eq_some_iff, Prod.exists, splitFirst_eq_some,
      Option.pure_def, Option.some.injEq]
    constructor
    · rintro ⟨_, rest, ⟨hcs, hequals⟩, group, key, ⟨rfl, hline⟩, rfl⟩
      refine ⟨group, key, rest, hcs, hequals, hline, fun hhead => ?_, rfl⟩
      obtain ⟨group', rfl⟩ := List.head?_eq_some_iff.1 hhead
      exact hhash _ hcs
    · rintro ⟨group, key, rest, hcs, hequals, hline, -, rfl⟩
      exact ⟨_, rest, ⟨hcs, hequals⟩, group, key, ⟨rfl, hline⟩, rfl⟩

/-- A line that assigns to a key of a section gives the value to the name of the two. -/
theorem map_value_assignmentOf? (hline : '_' ∉ group) (hhead : group.head? ≠ some '#')
    (hequals : '=' ∉ group ++ '_' :: key) :
    ((assignmentOf? line).filter fun a =>
      a.group == String.ofList group && a.key == String.ofList key).map (·.value) =
      (valueOf? (group ++ '_' :: key) line).map scalarOf := by
  refine Option.ext fun v => ?_
  simp only [Option.map_eq_some_iff, Option.filter_eq_some_iff, assignmentOf?_eq_some,
    valueOf?_eq_some, Bool.and_eq_true, beq_iff_eq]
  constructor
  · rintro ⟨_, ⟨⟨group', key', rest, hcs, -, -, -, rfl⟩, hgroup, hkey⟩, rfl⟩
    cases String.ofList_injective hgroup
    cases String.ofList_injective hkey
    exact ⟨_, ⟨rest, hcs, rfl⟩, rfl⟩
  · rintro ⟨_, ⟨rest, hcs, rfl⟩, rfl⟩
    exact ⟨_, ⟨⟨group, key, rest, hcs, hequals, hline, hhead, rfl⟩, rfl, rfl⟩, rfl⟩

end

/-- The value that the last line for a key gives to it. -/
def lastAssigned? (text key : String) : Option (List Char) :=
  ((textLines text.toList).filterMap (valueOf? key.toList)).getLast?

/-- To look for the first entry that passes a test is to ask each line for one. -/
theorem map_find?_filterMap {α β γ : Type} {f : α → Option β} {test : β → Bool} {g : β → γ}
    {h : α → Option γ} (hf : ∀ x, ((f x).filter test).map g = h x) (l : List α) :
    ((l.filterMap f).find? test).map g = l.findSome? h := by
  induction l with
  | nil => rfl
  | cons x l ih =>
    rw [List.findSome?_cons, List.filterMap_cons, ← hf x]
    cases f x with
    | none => exact ih
    | some b =>
      rw [Option.filter_some]
      cases hb : test b with
      | true => simp [hb]
      | false => simpa [hb] using ih

/-- The lines of a text of the menu program, as they are read. -/
def menuSource (text : String) : Source :=
  .assignments ((textLines text.toList).filterMap assignmentOf?)

/-- The value of a key in a text of the menu program is the one that the last line for its name
gives to it. -/
theorem get?_menuSource {group key : String} (hline : '_' ∉ group.toList)
    (hhead : group.toList.head? ≠ some '#')
    (hequals : '=' ∉ group.toList ++ '_' :: key.toList) (text : String) :
    (menuSource text).get? group key =
      (lastAssigned? text (group ++ "_" ++ key)).map scalarOf := by
  have hname : (group ++ "_" ++ key).toList = group.toList ++ '_' :: key.toList := by simp
  have hvalue : ∀ line, ((assignmentOf? line).filter fun a =>
      a.group == group && a.key == key).map (·.value) =
        (valueOf? (group.toList ++ '_' :: key.toList) line).map scalarOf := by
    intro line
    have h := @map_value_assignmentOf? line group.toList key.toList hline hhead hequals
    rwa [String.ofList_toList, String.ofList_toList] at h
  rw [menuSource, Source.get?, lastAssigned?, List.getLast?_filterMap, hname, List.map_findSome?,
    ← List.filterMap_reverse]
  exact map_find?_filterMap hvalue _

/-! ## Values -/

/-- A whole number as it is written: digits, behind a sign or not. -/
inductive Numeral : List Char → Int → Prop
  | unsigned {ds : List Char} (nonempty : ds ≠ []) (digits : ∀ c ∈ ds, c.isDigit = true) :
      Numeral ds (Toml.digitsValue 10 ds)
  | plus {ds : List Char} (nonempty : ds ≠ []) (digits : ∀ c ∈ ds, c.isDigit = true) :
      Numeral ('+' :: ds) (Toml.digitsValue 10 ds)
  | minus {ds : List Char} (nonempty : ds ≠ []) (digits : ∀ c ∈ ds, c.isDigit = true) :
      Numeral ('-' :: ds) (-Toml.digitsValue 10 ds)

/-- What a value stands for. -/
inductive Reads : List Char → Scalar → Prop
  | yes : Reads "true".toList (.flag true)
  | no : Reads "false".toList (.flag false)
  /-- A whole number of 64 bits. -/
  | number {cs : List Char} {n : Int} (h : Numeral cs n) (least : -2 ^ 63 ≤ n) (most : n < 2 ^ 63) :
      Reads cs (.number n)
  /-- Whatever stands for nothing else is a text, without the quotes at its ends. -/
  | text {cs : List Char} (flag : cs ≠ "true".toList ∧ cs ≠ "false".toList)
      (number : ∀ n, Numeral cs n → n < -2 ^ 63 ∨ 2 ^ 63 ≤ n) :
      Reads cs (.text (String.ofList (trimBy (· == '"') cs)))

/-- A number is in range exactly if it is a signed 64-bit one. -/
theorem inRange?_eq_some {n m : Int} :
    Toml.inRange? n = some m ↔ n = m ∧ -2 ^ 63 ≤ m ∧ m < 2 ^ 63 := by
  unfold Toml.inRange?
  split <;> simp <;> omega

/-- Digits behind a sign stand for a number if it is within the range. -/
theorem number?_digits {cs ds : List Char} {negative : Bool} {n : Int}
    (h : Toml.splitSign cs = (negative, ds)) : number? cs = some n ↔
      (ds ≠ [] ∧ ∀ c ∈ ds, c.isDigit = true) ∧
        (if negative then -(Toml.digitsValue 10 ds : Int) else Toml.digitsValue 10 ds) = n ∧
        -2 ^ 63 ≤ n ∧ n < 2 ^ 63 := by
  unfold number?
  rw [h]
  dsimp only
  rw [← inRange?_eq_some]
  split
  · next hbad =>
    simp only [reduceCtorEq, false_iff, not_and]
    rintro ⟨nonempty, digits⟩
    simp [nonempty] at hbad
    obtain ⟨c, hc, hnot⟩ := hbad
    rw [digits c hc] at hnot
    cases hnot
  · next hgood =>
    have hdigits : ds ≠ [] ∧ ∀ c ∈ ds, c.isDigit = true := by simpa using hgood
    exact (and_iff_right hdigits).symm

/-- Digits have no sign. -/
theorem splitSign_of_digits {ds : List Char} (digits : ∀ c ∈ ds, c.isDigit = true) :
    Toml.splitSign ds = (false, ds) := by
  have nosign : '-'.isDigit = false ∧ '+'.isDigit = false := by decide
  unfold Toml.splitSign
  split
  · cases nosign.1.symm.trans (digits '-' List.mem_cons_self)
  · cases nosign.2.symm.trans (digits '+' List.mem_cons_self)
  · rfl

/-- The numbers that are read are the numerals within 64 bits. -/
theorem number?_eq_some {cs : List Char} {n : Int} :
    number? cs = some n ↔ Numeral cs n ∧ -2 ^ 63 ≤ n ∧ n < 2 ^ 63 := by
  constructor
  · intro h
    have hcases : (∃ ds, cs = '-' :: ds) ∨ (∃ ds, cs = '+' :: ds) ∨
        Toml.splitSign cs = (false, cs) := by
      unfold Toml.splitSign
      split <;> simp
    obtain ⟨ds, rfl⟩ | ⟨ds, rfl⟩ | hplain := hcases
    · obtain ⟨⟨nonempty, digits⟩, rfl, range⟩ := (number?_digits rfl).1 h
      exact ⟨.minus nonempty digits, range⟩
    · obtain ⟨⟨nonempty, digits⟩, rfl, range⟩ := (number?_digits rfl).1 h
      exact ⟨.plus nonempty digits, range⟩
    · obtain ⟨⟨nonempty, digits⟩, rfl, range⟩ := (number?_digits hplain).1 h
      exact ⟨.unsigned nonempty digits, range⟩
  · rintro ⟨h, range⟩
    cases h with
    | unsigned nonempty digits =>
      exact (number?_digits (splitSign_of_digits digits)).2 ⟨⟨nonempty, digits⟩, rfl, range⟩
    | plus nonempty digits => exact (number?_digits rfl).2 ⟨⟨nonempty, digits⟩, rfl, range⟩
    | minus nonempty digits => exact (number?_digits rfl).2 ⟨⟨nonempty, digits⟩, rfl, range⟩

/-- A value is read as the scalar that it stands for. -/
theorem scalarOf_eq_iff {cs : List Char} {v : Scalar} : scalarOf cs = v ↔ Reads cs v := by
  constructor
  · rintro rfl
    unfold scalarOf
    split
    · next h => exact h ▸ .yes
    split
    · next h => exact h ▸ .no
    next hyes hno =>
    split
    · next n hn =>
      obtain ⟨h, least, most⟩ := number?_eq_some.1 hn
      exact .number h least most
    · next hn =>
      refine .text ⟨hyes, hno⟩ fun n h => ?_
      by_contra hrange
      have hsome := number?_eq_some.2 ⟨h, by omega, by omega⟩
      cases hn.symm.trans hsome
  · intro h
    cases h with
    | yes | no => rfl
    | number h least most =>
      have hn := number?_eq_some.2 ⟨h, least, most⟩
      have hyes : cs ≠ "true".toList := by
        rintro rfl
        cases hn
      have hno : cs ≠ "false".toList := by
        rintro rfl
        cases hn
      rw [scalarOf, if_neg hyes, if_neg hno, hn]
    | text flag number =>
      have hn : number? cs = none := by
        refine Option.eq_none_iff_forall_ne_some.2 fun n hn => ?_
        obtain ⟨h, least, most⟩ := number?_eq_some.1 hn
        have := number n h
        omega
      rw [scalarOf, if_neg flag.1, if_neg flag.2, hn]

/-! ## Constants that can be configured -/

/-- How a constant takes its value from a configuration. -/
inductive Kind where
  /-- A text. -/
  | text (default : String)
  /-- A whole number. -/
  | number (default : Int)
  /-- A whole number that is brought between two bounds. -/
  | clamped (least most default : Int)
  /-- A truth value. -/
  | flag (default : Bool)
  /-- A log level, by its word. -/
  | level
deriving DecidableEq

/-- The log level of a word; other words stand for the default level. -/
def levelOf (word : String) : String :=
  if word = "error" then "Error"
  else if word = "warn" then "Warn"
  else if word = "debug" then "Debug"
  else if word = "trace" then "Trace"
  else "Info"

/-- The value of a constant: what is configured if that is of its kind, and its default otherwise.
-/
def Kind.literal : Kind → Option Scalar → Literal
  | text _, some (.text s) => .text s
  | text default, _ => .text default
  | number _, some (.number n) => .number n
  | number default, _ => .number default
  | clamped least most _, some (.number n) => .number (clamp least most n)
  | clamped least most default, _ => .number (clamp least most default)
  | flag _, some (.flag b) => .flag b
  | flag default, _ => .flag default
  | level, some (.text s) => .expression ("log::LevelFilter::" ++ levelOf s)
  | level, _ => .expression "log::LevelFilter::Info"

/-- A text constant is the assigned text, or the default if no text is assigned. -/
theorem literal_text (default : String) (v : Option Scalar) :
    (∃ s, v = some (.text s) ∧ (Kind.text default).literal v = .text s) ∨
      (∀ s, v ≠ some (.text s)) ∧ (Kind.text default).literal v = .text default := by
  rcases v with _ | s | n | b <;> simp [Kind.literal]

/-- A number constant is the assigned number, or the default if no number is assigned. -/
theorem literal_number (default : Int) (v : Option Scalar) :
    (∃ n, v = some (.number n) ∧ (Kind.number default).literal v = .number n) ∨
      (∀ n, v ≠ some (.number n)) ∧ (Kind.number default).literal v = .number default := by
  rcases v with _ | s | n | b <;> simp [Kind.literal]

/-- A clamped constant lies between its bounds whatever is assigned. -/
theorem literal_clamped (least most default : Int) (v : Option Scalar) :
    ∃ n, (Kind.clamped least most default).literal v = .number (clamp least most n) := by
  rcases v with _ | s | n | b <;> exact ⟨_, rfl⟩

/-- A flag constant is a flag whatever is assigned. -/
theorem literal_flag (default : Bool) (v : Option Scalar) :
    ∃ b, (Kind.flag default).literal v = .flag b := by
  rcases v with _ | s | n | b <;> exact ⟨_, rfl⟩

/-- A level constant names a level whatever is assigned. -/
theorem literal_level (v : Option Scalar) :
    ∃ word, Kind.level.literal v = .expression ("log::LevelFilter::" ++ levelOf word) := by
  have hdefault : Literal.expression "log::LevelFilter::Info" =
      .expression ("log::LevelFilter::" ++ levelOf "info") := by decide
  rcases v with _ | s | n | b
  · exact ⟨_, hdefault⟩
  · exact ⟨s, rfl⟩
  · exact ⟨_, hdefault⟩
  · exact ⟨_, hdefault⟩

/-- A constant that can be configured, by a key in a section. -/
structure Knob where
  /-- The name of the constant. -/
  constant : String
  /-- Its type. -/
  type : String
  /-- The section. -/
  group : String
  /-- The key. -/
  key : String
  /-- How the constant takes its value, with its default. -/
  kind : Kind
deriving DecidableEq

/-- The name by which a line gives a value to a constant. -/
def Knob.name (knob : Knob) : String :=
  knob.group ++ "_" ++ knob.key

/-- The constants that can be configured, with their documented defaults. -/
def knobs : List Knob :=
  [⟨"KERNEL_NAME", "&str", "general", "name", .text "Rux"⟩,
    ⟨"KERNEL_VERSION", "&str", "general", "version", .text "0.1.0"⟩,
    ⟨"TARGET_PLATFORM", "&str", "platform", "default_platform", .text "riscv64"⟩,
    ⟨"MAX_CPUS", "usize", "smp", "max_cpus", .number 4⟩,
    ⟨"LOG2NPROC", "u32", "process", "log2_nproc", .clamped 1 16 8⟩,
    ⟨"PAGE_SIZE", "usize", "memory", "page_size", .number 4096⟩,
    ⟨"USER_ADDR_LIMIT", "usize", "memory", "user_addr_limit", .number 0x4000000000⟩,
    ⟨"ENABLE_FUTEX", "bool", "futex", "enable_futex", .flag true⟩,
    ⟨"FUTEX_HASH_SIZE", "usize", "futex", "hash_size", .number 256⟩,
    ⟨"ROBUST_LIST_LIMIT", "usize", "futex", "robust_list_limit", .number 2048⟩,
    ⟨"ENABLE_SIGNAL", "bool", "signal", "enable_signal", .flag true⟩,
    ⟨"NSIG", "usize", "signal", "nsig", .clamped 1 64 64⟩,
    ⟨"SIG_QUEUE_MAX", "usize", "signal", "queue_max", .number 32⟩,
    ⟨"SIGFRAME_ALIGN", "usize", "signal", "frame_align", .number 16⟩,
    ⟨"ENABLE_IPC_TIMEOUT", "bool", "ipc", "enable_ipc_timeout", .flag true⟩,
    ⟨"IPC_SWEEP_INTERVAL_MS", "u64", "ipc", "sweep_interval_ms", .number 500⟩,
    ⟨"LOG_LEVEL", "log::LevelFilter", "debug", "log_level", .level⟩]

/-- The definitions in the file of constants, in order. -/
def Settings.constants (s : Settings) : List Constant :=
  s.chapters.flatMap Chapter.constants

section
variable (source : Source) (group key : String)

/-- A text setting gives the constant of its knob. -/
theorem text_eq (default : String) : Literal.text (source.text group key default) =
    (Kind.text default).literal (source.get? group key) := by
  unfold Source.text
  split <;> simp_all [Kind.literal]

/-- A number setting gives the constant of its knob. -/
theorem number_eq (default : Int) : Literal.number (source.number group key default) =
    (Kind.number default).literal (source.get? group key) := by
  unfold Source.number
  split <;> simp_all [Kind.literal]

/-- A clamped setting gives the constant of its knob. -/
theorem clamped_eq (least most default : Int) :
    Literal.number (clamp least most (source.number group key default)) =
      (Kind.clamped least most default).literal (source.get? group key) := by
  unfold Source.number
  split <;> simp_all [Kind.literal]

/-- A flag setting gives the constant of its knob. -/
theorem flag_eq (default : Bool) : Literal.flag (source.flag group key default) =
    (Kind.flag default).literal (source.get? group key) := by
  unfold Source.flag
  split <;> simp_all [Kind.literal]

/-- The log level gives the constant of its knob. -/
theorem level_eq :
    Literal.expression ("log::LevelFilter::" ++ levelOf (source.text group key "info")) =
      Kind.level.literal (source.get? group key) := by
  have hdefault : "log::LevelFilter::" ++ levelOf "info" = "log::LevelFilter::Info" := by decide
  unfold Source.text
  split <;> simp_all [Kind.literal]

end

/-- The constants that can be configured have the values that the configuration gives them. -/
theorem constants_ofSource (source : Source) :
    (((Settings.ofSource source).constants.filter fun c => c.name ≠ "NPROC").map
        fun c => (c.name, c.type, c.value)) =
      knobs.map fun knob =>
        (knob.constant, knob.type, knob.kind.literal (source.get? knob.group knob.key)) := by
  simp only [knobs, List.map, ← text_eq, ← number_eq, ← clamped_eq, ← flag_eq, ← level_eq]
  rfl

/-- A text without headers, as the menu program writes it. -/
def NoHeader (text : String) : Prop :=
  ∀ line ∈ textLines text.toList, Source.isHeader line = false

instance : DecidablePred NoHeader :=
  fun text => inferInstanceAs (Decidable (∀ line ∈ textLines text.toList, _))

/-- A text without headers is read as a list of assignments. -/
theorem read?_of_noHeader {text : String} (h : NoHeader text) :
    Source.read? text.toList = some (menuSource text) := by
  have hnone : (textLines text.toList).any Source.isHeader = false := by
    simpa [NoHeader] using h
  rw [Source.read?, hnone]
  rfl

/-- The settings that a text of the menu program gives. -/
def settingsOf (text : String) : Settings :=
  .ofSource (menuSource text)

/-- From a text without headers the constants are generated, whatever the other files hold. -/
theorem generate_of_noHeader {f : Files} {text : String} (hmenu : f.menu = some text)
    (h : NoHeader text) :
    (generate f).constants = some (settingsOf text).constantsFile ∧ (generate f).ok = true := by
  have hread : Source.read? f.configuration.toList = some (menuSource text) := by
    rw [Files.configuration, hmenu]
    exact read?_of_noHeader h
  rw [generate, hread]
  exact ⟨rfl, rfl⟩

/-- No section has an underscore or begins with a hash sign, and no name has an equals sign. -/
theorem knobs_wellFormed : ∀ knob ∈ knobs, '_' ∉ knob.group.toList ∧
    knob.group.toList.head? ≠ some '#' ∧ '=' ∉ knob.group.toList ++ '_' :: knob.key.toList := by
  decide

/-- What the source holds under a knob is the value assigned to it last. -/
theorem get?_knob {knob : Knob} (hknob : knob ∈ knobs) (text : String) :
    (menuSource text).get? knob.group knob.key = (lastAssigned? text knob.name).map scalarOf :=
  have ⟨hline, hhead, hequals⟩ := knobs_wellFormed knob hknob
  get?_menuSource hline hhead hequals text

/-- The constants that can be configured have the values that the last lines for their names give
them. -/
theorem constants_settingsOf (text : String) :
    (((settingsOf text).constants.filter fun c => c.name ≠ "NPROC").map
        fun c => (c.name, c.type, c.value)) =
      knobs.map fun knob => (knob.constant, knob.type,
        knob.kind.literal ((lastAssigned? text knob.name).map scalarOf)) := by
  refine (constants_ofSource _).trans (List.map_congr_left fun knob hknob => ?_)
  rw [get?_knob hknob]

/-- The definition of a constant that can be configured. -/
structure Knob.Defines (knob : Knob) (v : Option Scalar) (c : Constant) : Prop where
  name : c.name = knob.constant
  type : c.type = knob.type
  value : c.value = knob.kind.literal v

/-- The constants are the one for the number of slots and those that can be configured. -/
theorem mem_constants {text : String} {c : Constant} (hc : c ∈ (settingsOf text).constants) :
    (c.name = "NPROC" ∧ c.type = "usize" ∧ c.value = .expression "1 << LOG2NPROC") ∨
      ∃ knob ∈ knobs, knob.Defines ((lastAssigned? text knob.name).map scalarOf) c := by
  by_cases hname : c.name = "NPROC"
  · have hmem : c ∈ (settingsOf text).constants.filter fun c => c.name = "NPROC" :=
      List.mem_filter.2 ⟨hc, decide_eq_true hname⟩
    have hpair : (c.type, c.value) ∈ [("usize", Literal.expression "1 << LOG2NPROC")] :=
      List.mem_map_of_mem hmem (f := fun c => (c.type, c.value))
    simp only [List.mem_singleton, Prod.mk.injEq] at hpair
    exact .inl ⟨hname, hpair⟩
  · have hmem : c ∈ (settingsOf text).constants.filter fun c => c.name ≠ "NPROC" :=
      List.mem_filter.2 ⟨hc, decide_eq_true hname⟩
    have htriple := List.mem_map_of_mem hmem (f := fun c => (c.name, c.type, c.value))
    rw [constants_settingsOf] at htriple
    obtain ⟨knob, hknob, heq⟩ := List.mem_map.1 htriple
    simp only [Prod.mk.injEq] at heq
    exact .inr ⟨knob, hknob, heq.1.symm, heq.2.1.symm, heq.2.2.symm⟩

/-- Among the constants is one for each knob, with the value assigned to the knob last. -/
theorem exists_defines {knob : Knob} (hknob : knob ∈ knobs) (text : String) :
    ∃ c ∈ (settingsOf text).constants,
      knob.Defines ((lastAssigned? text knob.name).map scalarOf) c := by
  have htriple := List.mem_map_of_mem hknob (f := fun knob => (knob.constant, knob.type,
    knob.kind.literal ((lastAssigned? text knob.name).map scalarOf)))
  rw [← constants_settingsOf] at htriple
  obtain ⟨c, hc, heq⟩ := List.mem_map.1 htriple
  simp only [Prod.mk.injEq] at heq
  exact ⟨c, (List.mem_filter.1 hc).1, heq.1, heq.2.1, heq.2.2⟩

/-- A value that may be missing stands for the scalar it is read as, and a missing one for none. -/
theorem rel_reads_iff {o : Option (List Char)} {v : Option Scalar} :
    Option.Rel Reads o v ↔ o.map scalarOf = v := by
  cases o <;> cases v <;> simp [scalarOf_eq_iff]

end SyncKernel.Configuration
