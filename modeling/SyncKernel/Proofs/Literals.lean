import SyncKernel.Proofs.Assignments

/-!
# Literals in the file of constants

Each definition in the file of constants stands on a line of its own (`definition_mem_textLines`),
as no value has a line break. What remains is whether its literal means the value. `Denotes` tells
which values the literals of a type mean; a text means itself between quotes just if each of its
characters stands for itself (`quoted_self_iff`), which is shown by length, and a number is written
as a literal just if it is not below zero (`denotes_number`). Defaults, truth values, log levels and
numbers that are brought between bounds are always fine, so only a configured text or number can
spoil a definition (`definitions_valid_iff`).
-/

namespace SyncKernel.Configuration

/-! ## Lines of the file -/

/-- A text begins with its first line. -/
theorem linesFrom_append {line : List Char} (h : '\n' ∉ line) (begun cs : List Char) :
    linesFrom begun (line ++ '\n' :: cs) =
      dropReturn (begun.reverse ++ line) :: linesFrom [] cs := by
  induction line generalizing begun with
  | nil => simp [linesFrom]
  | cons c line ih =>
    obtain ⟨hc, hline⟩ : '\n' ≠ c ∧ '\n' ∉ line := by simpa using h
    rw [List.cons_append, linesFrom.eq_3 _ _ _ fun h => hc h.symm, ih hline]
    simp

/-- The lines of a text that was put together from lines. -/
theorem textLines_flatMap {lines : List (List Char)}
    (h : ∀ line ∈ lines, '\n' ∉ line ∧ line.getLast? ≠ some '\r') :
    textLines (lines.flatMap (· ++ ['\n'])) = lines := by
  induction lines with
  | nil => rfl
  | cons line lines ih =>
    obtain ⟨⟨hline, hreturn⟩, hlines⟩ := List.forall_mem_cons.1 h
    have hdrop : dropReturn line = line := if_neg hreturn
    rw [List.flatMap_cons, List.append_assoc, List.singleton_append, textLines,
      linesFrom_append hline, List.reverse_nil, List.nil_append, hdrop]
    exact congrArg _ (ih hlines)

/-- Dropping a carriage return brings in no new character. -/
theorem subset_dropReturn (line : List Char) : dropReturn line ⊆ line := by
  unfold dropReturn
  split
  · exact List.dropLast_subset _
  · exact List.Subset.refl _

/-- No line contains a line feed. -/
theorem newline_not_mem_linesFrom {begun cs line : List Char} (hbegun : '\n' ∉ begun)
    (h : line ∈ linesFrom begun cs) : '\n' ∉ line := by
  have hdrop {begun : List Char} (hbegun : '\n' ∉ begun) : '\n' ∉ dropReturn begun.reverse :=
    fun hmem => hbegun (List.mem_reverse.1 (subset_dropReturn _ hmem))
  induction begun, cs using linesFrom.induct with
  | case1 begun hempty => simp [linesFrom, hempty] at h
  | case2 begun hsome =>
    simp [linesFrom, hsome] at h
    simpa [h] using hbegun
  | case3 begun cs ih =>
    rw [linesFrom] at h
    obtain rfl | h := List.mem_cons.1 h
    · exact hdrop hbegun
    · exact ih (by simp) h
  | case4 begun c cs hc ih =>
    rw [linesFrom.eq_3 _ _ _ hc] at h
    exact ih (by simpa using ⟨fun h => hc h.symm, hbegun⟩) h

/-- Trimming brings in no new character. -/
theorem subset_trimBy (test : Char → Bool) (cs : List Char) : trimBy test cs ⊆ cs := by
  intro c hc
  have h := (List.dropWhile_suffix _).subset (List.mem_reverse.1 hc)
  exact (List.dropWhile_suffix _).subset (List.mem_reverse.1 h)

/-- An assigned value contains no line feed. -/
theorem newline_not_mem_of_lastAssigned? {text key : String} {cs : List Char}
    (h : lastAssigned? text key = some cs) : '\n' ∉ cs := by
  obtain ⟨line, hline, hvalue⟩ := List.mem_filterMap.1 (List.mem_of_getLast? h)
  obtain ⟨rest, htrim, rfl⟩ := valueOf?_eq_some.1 hvalue
  intro hmem
  have hrest : '\n' ∈ trimBlanks line := htrim ▸ List.mem_append_right _
    (List.mem_cons_of_mem _ (subset_trimBy _ _ hmem))
  exact newline_not_mem_linesFrom (by simp) hline (subset_trimBy _ _ hrest)

/-! ## Numerals -/

/-- A decimal digit has its own value as a hexadecimal one. -/
theorem hexDigit?_of_isDigit {c : Char} (h : c.isDigit = true) :
    Toml.hexDigit? c = some (c.toNat - '0'.toNat) := by
  have hrange : '0' ≤ c ∧ c ≤ '9' := by simpa [Char.isDigit, Char.le_def] using h
  exact if_pos hrange

/-- Decimal digits have the value that `Nat.ofDigitChars` gives them. -/
theorem digitsValue_of_isDigit {ds : List Char} (h : ∀ c ∈ ds, c.isDigit = true) :
    Toml.digitsValue 10 ds = Nat.ofDigitChars 10 ds 0 := by
  refine List.foldl_ext _ _ _ fun n c hc => ?_
  rw [hexDigit?_of_isDigit (h c hc), Option.getD_some]

/-- A number is written in decimal digits. -/
theorem isDigit_of_mem_toDigits {n : Nat} {c : Char} (h : c ∈ Nat.toDigits 10 n) :
    c.isDigit = true :=
  Nat.isDigit_of_mem_toDigits (by decide) (by decide) h

/-- The digits of a number have the value of the number. -/
theorem digitsValue_toDigits (n : Nat) : Toml.digitsValue 10 (Nat.toDigits 10 n) = n := by
  rw [digitsValue_of_isDigit fun _ => isDigit_of_mem_toDigits, Nat.ofDigitChars_ten_toDigits]

/-- A number that is not negative is written as its digits. -/
theorem toList_toString_natCast (n : Nat) : (toString (n : Int)).toList = Nat.toDigits 10 n :=
  Nat.toList_repr

/-- A negative number is written with its sign. -/
theorem toList_toString_negSucc (n : Nat) :
    (toString (Int.negSucc n)).toList = '-' :: Nat.toDigits 10 (n + 1) := by
  show ("-" ++ Nat.repr (n + 1)).toList = _
  rw [String.toList_append, Nat.toList_repr]
  rfl

/-! ## Literals -/

/-- A character that stands for itself between quotes. -/
def StandsForItself (c : Char) : Prop :=
  c ≠ '"' ∧ c ≠ '\\' ∧ c ≠ '\r'

instance : DecidablePred StandsForItself :=
  fun _ => inferInstanceAs (Decidable (_ ∧ _ ∧ _))

/-- What stands behind a backslash, and what it means: a character by a letter, a small code in two
digits or a code point in braces, where underscores do not count; or nothing, for a line break with
the blanks after it. -/
inductive Escape : List Char → List Char → Prop
  | letter {c d : Char} (h : (c, d) ∈ [('n', '\n'), ('r', '\r'), ('t', '\t'), ('\\', '\\'),
      ('0', '\x00'), ('\x27', '\x27'), ('"', '"')]) : Escape [c] [d]
  | ascii {a b : Char} {m n : Nat} (ha : Toml.hexDigit? a = some m) (hb : Toml.hexDigit? b = some n)
      (small : m < 8) : Escape ['x', a, b] [Char.ofNat (16 * m + n)]
  | unicode {cs ds : List Char} (first : cs.head? ≠ some '_') (hds : ds = cs.filter (· ≠ '_'))
      (length : 1 ≤ ds.length ∧ ds.length ≤ 6) (digits : ∀ c ∈ ds, (Toml.hexDigit? c).isSome)
      (valid : (Toml.digitsValue 16 ds).isValidChar) :
      Escape ('u' :: '\x7b' :: cs ++ ['\x7d']) [Char.ofNat (Toml.digitsValue 16 ds)]
  | skipped {blanks : List Char} (h : ∀ c ∈ blanks, c ∈ [' ', '\t', '\n', '\r']) :
      Escape ('\n' :: blanks) []

/-- What stands between quotes, and the text that it means. -/
inductive Quoted : List Char → List Char → Prop
  | nil : Quoted [] []
  | plain {c : Char} {cs s : List Char} (h : StandsForItself c) (rest : Quoted cs s) :
      Quoted (c :: cs) (c :: s)
  | escape {e d cs s : List Char} (h : Escape e d) (rest : Quoted cs s) :
      Quoted ('\\' :: e ++ cs) (d ++ s)

/-- What stands behind a backslash is no shorter than what it means. -/
theorem Escape.length_lt {e d : List Char} (h : Escape e d) : d.length < e.length + 1 := by
  cases h <;> simp

/-- A text is not longer than what stands for it, and as long only without a backslash. -/
theorem Quoted.length_le {cs s : List Char} (h : Quoted cs s) :
    s.length ≤ cs.length ∧ (cs.length ≤ s.length → ∀ c ∈ cs, StandsForItself c) := by
  induction h with
  | nil => simp
  | plain hc _ ih =>
    refine ⟨Nat.succ_le_succ ih.1, fun hle => ?_⟩
    exact List.forall_mem_cons.2 ⟨hc, ih.2 (Nat.le_of_succ_le_succ hle)⟩
  | escape he _ ih =>
    have := he.length_lt
    have := ih.1
    simp only [List.cons_append, List.length_cons, List.length_append]
    exact ⟨by omega, fun hle => absurd hle (by omega)⟩

/-- A text means itself between quotes if each of its characters stands for itself. -/
theorem quoted_self_iff {cs : List Char} : Quoted cs cs ↔ ∀ c ∈ cs, StandsForItself c := by
  constructor
  · exact fun h => h.length_le.2 le_rfl
  · intro h
    induction cs with
    | nil => exact .nil
    | cons c cs ih =>
      obtain ⟨hc, hcs⟩ := List.forall_mem_cons.1 h
      exact .plain hc (ih hcs)

/-- The types of whole numbers, with their numbers of bits. -/
def widths : List (String × Nat) :=
  [("u32", 32), ("u64", 64), ("usize", 64)]

/-- That a literal of a type means a value. A whole number is written without a sign, and the number
one may be shifted by the value of another constant, by less than 64 bits. -/
inductive Denotes (constants : List Constant) (type : String) (cs : List Char) : Literal → Prop
  | text {body : List Char} {s : String} (htype : type = "&str") (hcs : cs = '"' :: body ++ ['"'])
      (h : Quoted body s.toList) : Denotes constants type cs (.text s)
  | number {bits : Nat} (htype : (type, bits) ∈ widths) (nonempty : cs ≠ [])
      (digits : ∀ c ∈ cs, c.isDigit = true) (fits : Toml.digitsValue 10 cs < 2 ^ bits) :
      Denotes constants type cs (.number (Toml.digitsValue 10 cs))
  | flag {b : Bool} (htype : type = "bool") (hcs : cs = (if b then "true" else "false").toList) :
      Denotes constants type cs (.flag b)
  | level {word : String} (htype : type = "log::LevelFilter")
      (h : word ∈ ["Off", "Error", "Warn", "Info", "Debug", "Trace"])
      (hcs : cs = ("log::LevelFilter::" ++ word).toList) :
      Denotes constants type cs (.expression ("log::LevelFilter::" ++ word))
  | shift {c : Constant} {n : Nat} (htype : type = "usize") (hc : c ∈ constants)
      (hcount : c.type = "u32" ∧ c.value = .number n) (fits : n < 64)
      (hcs : cs = ("1 << " ++ c.name).toList) :
      Denotes constants type cs (.expression ("1 << " ++ c.name))

/-- The literal in a definition is one of the type, and means the value. -/
def Constant.Valid (constants : List Constant) (c : Constant) : Prop :=
  Denotes constants c.type c.value.render.toList c.value

section
variable {constants : List Constant} {type : String}

/-- A text between quotes means itself exactly if all its characters stand for themselves. -/
theorem denotes_text {s : String} :
    Denotes constants "&str" (Literal.text s).render.toList (.text s) ↔
      ∀ c ∈ s.toList, StandsForItself c := by
  have hrender : (Literal.text s).render.toList = '"' :: s.toList ++ ['"'] := by
    simp [Literal.render]
  rw [hrender, ← quoted_self_iff]
  constructor
  · rintro (⟨-, hcs, h⟩ | _)
    simp only [List.cons_append, List.cons.injEq, List.append_cancel_right_eq, true_and] at hcs
    exact hcs ▸ h
  · exact .text rfl rfl

/-- A number that fits its type means itself exactly if it is not negative. -/
theorem denotes_number {bits : Nat} {n : Int} (htype : (type, bits) ∈ widths)
    (hn : n < 2 ^ bits) :
    Denotes constants type (Literal.number n).render.toList (.number n) ↔ 0 ≤ n := by
  constructor
  · intro h
    generalize (Literal.number n).render.toList = cs at h
    cases h
    exact Int.natCast_nonneg _
  · intro h
    obtain ⟨n, rfl⟩ := Int.eq_ofNat_of_zero_le h
    have hrender : (Literal.number n).render.toList = Nat.toDigits 10 n :=
      toList_toString_natCast n
    have hlit := @Denotes.number constants type (Nat.toDigits 10 n) bits htype
      Nat.toDigits_ne_nil (fun _ => isDigit_of_mem_toDigits) (by
        rw [digitsValue_toDigits]
        exact_mod_cast hn)
    rwa [digitsValue_toDigits, ← hrender] at hlit

/-- A number clamped between bounds that fit its type means itself. -/
theorem denotes_clamp {bits : Nat} {least most : Int} (htype : (type, bits) ∈ widths)
    (hleast : 0 ≤ least) (hle : least ≤ most) (hmost : most < 2 ^ bits) (n : Int) :
    Denotes constants type (Literal.number (clamp least most n)).render.toList
      (.number (clamp least most n)) := by
  have hclamp : 0 ≤ clamp least most n ∧ clamp least most n ≤ most := by
    unfold clamp
    omega
  exact (denotes_number htype (by omega)).2 hclamp.1

/-- The expression for a level means itself. -/
theorem denotes_level (word : String) : Denotes constants "log::LevelFilter"
    (Literal.expression ("log::LevelFilter::" ++ levelOf word)).render.toList
    (.expression ("log::LevelFilter::" ++ levelOf word)) := by
  refine .level rfl ?_ rfl
  unfold levelOf
  split_ifs <;> simp

/-- What a constant needs so that its default and its bounds are values of its type. -/
def Kind.Sound (type : String) : Kind → Prop
  | text default => type = "&str" ∧ ∀ c ∈ default.toList, StandsForItself c ∧ c ≠ '\n'
  | number default => (type, 64) ∈ widths ∧ 0 ≤ default ∧ default < 2 ^ 63
  | clamped least most _ =>
    0 ≤ least ∧ least ≤ most ∧ ∃ bits, (type, bits) ∈ widths ∧ most < 2 ^ bits
  | flag _ => type = "bool"
  | level => type = "log::LevelFilter"

/-- Every knob has a kind that suits its type. -/
theorem knobs_sound : ∀ knob ∈ knobs, knob.kind.Sound knob.type := by
  simp [knobs, Kind.Sound, widths, StandsForItself]

/-- A configured value that is put into a definition and does not belong there. -/
inductive Spoils : Kind → Option Scalar → Prop
  /-- A character that means something else between quotes. -/
  | text {default s : String} {c : Char} (hc : c ∈ s.toList) (h : ¬StandsForItself c) :
      Spoils (.text default) (some (.text s))
  /-- A number below zero that is not brought between bounds. -/
  | number {default n : Int} (h : n < 0) : Spoils (.number default) (some (.number n))

/-- A literal means the value of its constant unless the configured value spoils it. -/
theorem Kind.Sound.denotes_iff {kind : Kind} (h : kind.Sound type) {v : Option Scalar}
    (hv : ∀ n, v = some (.number n) → n < 2 ^ 63) :
    Denotes constants type (kind.literal v).render.toList (kind.literal v) ↔
      ¬Spoils kind v := by
  cases kind with
  | text default =>
    obtain ⟨rfl, hdefault⟩ := h
    obtain ⟨s, rfl, hs⟩ | ⟨hother, hs⟩ := literal_text default v
    · rw [hs, denotes_text]
      constructor
      · rintro h ⟨hc, hnot⟩
        exact hnot (h _ hc)
      · intro h c hc
        by_contra hnot
        exact h (.text hc hnot)
    · rw [hs]
      refine iff_of_true (denotes_text.2 fun c hc => (hdefault c hc).1) ?_
      rintro ⟨⟩
      exact hother _ rfl
  | number default =>
    obtain ⟨htype, least, most⟩ := h
    obtain ⟨n, rfl, hn⟩ | ⟨hother, hn⟩ := literal_number default v
    · have hlt := hv n rfl
      rw [hn, denotes_number htype (by omega)]
      constructor
      · rintro hn ⟨hneg⟩
        omega
      · intro h
        by_contra hneg
        exact h (.number (by omega))
    · rw [hn]
      refine iff_of_true ((denotes_number htype (by omega)).2 least) ?_
      rintro ⟨⟩
      exact hother _ rfl
  | clamped least most default =>
    obtain ⟨hleast, hle, bits, htype, hmost⟩ := h
    obtain ⟨n, hn⟩ := literal_clamped least most default v
    rw [hn]
    exact iff_of_true (denotes_clamp htype hleast hle hmost n) nofun
  | flag default =>
    obtain ⟨b, hb⟩ := literal_flag default v
    rw [hb]
    exact iff_of_true (.flag h rfl) nofun
  | level =>
    obtain ⟨word, hword⟩ := literal_level v
    rw [hword]
    cases h
    exact iff_of_true (denotes_level word) nofun

end

/-! ## Definitions -/

/-- The definition of a constant as it is written. -/
def Constant.definition (c : Constant) : String :=
  "pub const " ++ c.name ++ ": " ++ c.type ++ " = " ++ c.value.render ++ ";"

/-- A constant is written as an empty line, its remark and its definition. -/
theorem Constant.lines_eq (c : Constant) : c.lines = ["", "/// " ++ c.remark, c.definition] :=
  rfl

/-- A text without characters that end a line. -/
def OneLine (t : String) : Prop :=
  '\n' ∉ t.toList ∧ '\r' ∉ t.toList

instance : DecidablePred OneLine :=
  fun _ => inferInstanceAs (Decidable (_ ∧ _))

/-- A text without line ends is a line. -/
theorem OneLine.isLine {t : String} (h : OneLine t) :
    '\n' ∉ t.toList ∧ t.toList.getLast? ≠ some '\r' :=
  ⟨h.1, fun hlast => h.2 (List.mem_of_getLast? hlast)⟩

/-- Two texts without line ends make one without. -/
theorem OneLine.append {t u : String} (ht : OneLine t) (hu : OneLine u) : OneLine (t ++ u) := by
  simp [OneLine, ht.1, ht.2, hu.1, hu.2]

/-- The texts in the file that are the same for all settings. -/
def Settings.fixedTexts (s : Settings) : List String :=
  s.chapters.flatMap fun chapter =>
    chapter.title :: chapter.constants.flatMap fun c => [c.remark, c.name, c.type]

/-- The texts that do not depend on the settings have no line ends. -/
theorem fixedTexts_oneLine (s : Settings) : ∀ t ∈ s.fixedTexts, OneLine t := by
  have hfixed : s.fixedTexts = (Settings.ofSource (.assignments [])).fixedTexts := rfl
  rw [hfixed]
  decide +kernel

/-- Titles, remarks, names and types have no line ends. -/
theorem chapters_oneLine {s : Settings} {chapter : Chapter} (hchapter : chapter ∈ s.chapters) :
    OneLine chapter.title ∧
      ∀ c ∈ chapter.constants, OneLine c.remark ∧ OneLine c.name ∧ OneLine c.type := by
  have htexts (t : String) (ht : t ∈ chapter.title ::
      chapter.constants.flatMap fun c => [c.remark, c.name, c.type]) : OneLine t :=
    fixedTexts_oneLine s t (List.mem_flatMap.2 ⟨chapter, hchapter, ht⟩)
  obtain ⟨htitle, hconstants⟩ := List.forall_mem_cons.1 htexts
  have hc {c : Constant} (hc : c ∈ chapter.constants) {t : String}
      (ht : t ∈ [c.remark, c.name, c.type]) : OneLine t :=
    hconstants t (List.mem_flatMap.2 ⟨c, hc, ht⟩)
  exact ⟨htitle, fun c h => ⟨hc h (by simp), hc h (by simp), hc h (by simp)⟩⟩

/-- A definition is a line if the value is written without line breaks. -/
theorem Constant.definition_isLine {c : Constant} (hname : OneLine c.name) (htype : OneLine c.type)
    (hvalue : '\n' ∉ c.value.render.toList) :
    '\n' ∉ c.definition.toList ∧ c.definition.toList.getLast? ≠ some '\r' := by
  have hn := hname.isLine.1
  have ht := htype.isLine.1
  have hlast : c.definition.toList.getLast? = some ';' := by
    rw [Constant.definition, String.toList_append]
    exact List.getLast?_concat
  exact ⟨by simp [Constant.definition, hn, ht, hvalue], by simp [hlast]⟩

/-- All that is written are lines, if no value contains a line feed. -/
theorem lines_isLine {s : Settings} (h : ∀ c ∈ s.constants, '\n' ∉ c.value.render.toList) :
    ∀ line ∈ Settings.heading ++ s.chapters.flatMap Chapter.lines,
      '\n' ∉ line.toList ∧ line.toList.getLast? ≠ some '\r' := by
  intro line hline
  obtain hline | hline := List.mem_append.1 hline
  · have hheading : ∀ line ∈ Settings.heading, OneLine line := by decide
    exact (hheading line hline).isLine
  obtain ⟨chapter, hchapter, hline⟩ := List.mem_flatMap.1 hline
  obtain ⟨htitle, hconstants⟩ := chapters_oneLine hchapter
  obtain hline | hline := List.mem_append.1 hline
  · have hframe : ∀ line ∈ ["", chapterRule, "// " ++ chapter.title, chapterRule],
        OneLine line := by
      have hrule : OneLine "" ∧ OneLine chapterRule ∧ OneLine "// " := by decide
      simpa [hrule] using hrule.2.2.append htitle
    exact (hframe line hline).isLine
  · obtain ⟨c, hc, hline⟩ := List.mem_flatMap.1 hline
    obtain ⟨hremark, hname, htype⟩ := hconstants c hc
    obtain rfl | rfl | rfl : line = "" ∨ line = "/// " ++ c.remark ∨ line = c.definition := by
      simpa [Constant.lines_eq] using hline
    · exact OneLine.isLine (by decide)
    · exact (OneLine.append (by decide) hremark).isLine
    · have hmem : c ∈ s.constants := List.mem_flatMap.2 ⟨chapter, hchapter, hc⟩
      exact Constant.definition_isLine hname htype (h c hmem)

/-- Each definition stands on a line of its own. -/
theorem definition_mem_textLines {s : Settings}
    (h : ∀ c ∈ s.constants, '\n' ∉ c.value.render.toList) {c : Constant} (hc : c ∈ s.constants) :
    c.definition.toList ∈ textLines s.constantsFile.toList := by
  have hfile : s.constantsFile.toList =
      ((Settings.heading ++ s.chapters.flatMap Chapter.lines).map String.toList).flatMap
        (· ++ ['\n']) := by
    simp [Settings.constantsFile, String.toList_join, List.flatMap_map]
  rw [hfile, textLines_flatMap (List.forall_mem_map.2 (lines_isLine h))]
  obtain ⟨chapter, hchapter, hmem⟩ := List.mem_flatMap.1 hc
  have hlines : c.definition ∈ c.lines := by simp [Constant.lines_eq]
  have hchapterLines : c.definition ∈ chapter.lines :=
    List.mem_append_right _ (List.mem_flatMap.2 ⟨c, hmem, hlines⟩)
  exact List.mem_map_of_mem
    (List.mem_append_right _ (List.mem_flatMap.2 ⟨chapter, hchapter, hchapterLines⟩))

/-! ## The file -/

section
variable {value : Option (List Char)} {v : Option Scalar}

/-- A number that is read is less than `2 ^ 63`. -/
theorem number_lt_of_reads (h : Option.Rel Reads value v) {n : Int} (hv : v = some (.number n)) :
    n < 2 ^ 63 := by
  cases hv
  cases h with
  | some h =>
    cases h with
    | number _ _ most => exact most

/-- A text that is read from a value without line feeds has none. -/
theorem newline_not_mem_of_reads (h : Option.Rel Reads value v) (hvalue : ∀ cs ∈ value, '\n' ∉ cs)
    {s : String} (hv : v = some (.text s)) : '\n' ∉ s.toList := by
  cases hv
  cases h with
  | some h =>
    cases h with
    | text =>
      rw [String.toList_ofList]
      exact fun hmem => hvalue _ rfl (subset_trimBy _ _ hmem)

/-- A number is written without line feeds. -/
theorem newline_not_mem_number (n : Int) : '\n' ∉ (Literal.number n).render.toList := by
  have hdigits (n : Nat) : '\n' ∉ Nat.toDigits 10 n := by
    intro hmem
    cases isDigit_of_mem_toDigits hmem
  cases n with
  | ofNat n => exact toList_toString_natCast n ▸ hdigits n
  | negSucc n =>
    have hrender : (Literal.number (.negSucc n)).render.toList = '-' :: Nat.toDigits 10 (n + 1) :=
      toList_toString_negSucc n
    simpa [hrender] using hdigits (n + 1)

/-- A value is written without line breaks if the texts in it have none. -/
theorem newline_not_mem_render {type : String} {kind : Kind} (h : kind.Sound type)
    (hv : ∀ s, v = some (.text s) → '\n' ∉ s.toList) :
    '\n' ∉ (kind.literal v).render.toList := by
  cases kind with
  | text default =>
    have hquoted {s : String} (hs : '\n' ∉ s.toList) : '\n' ∉ (Literal.text s).render.toList := by
      simp [Literal.render, hs]
    obtain ⟨s, rfl, hs⟩ | ⟨-, hs⟩ := literal_text default v
    · rw [hs]
      exact hquoted (hv s rfl)
    · rw [hs]
      exact hquoted fun hmem => (h.2 _ hmem).2 rfl
  | number default =>
    obtain ⟨n, -, hn⟩ | ⟨-, hn⟩ := literal_number default v
    · rw [hn]
      exact newline_not_mem_number n
    · rw [hn]
      exact newline_not_mem_number default
  | clamped least most default =>
    obtain ⟨n, hn⟩ := literal_clamped least most default v
    rw [hn]
    exact newline_not_mem_number _
  | flag default =>
    obtain ⟨b, hb⟩ := literal_flag default v
    rw [hb]
    cases b <;> decide
  | level =>
    obtain ⟨word, hword⟩ := literal_level v
    rw [hword]
    show '\n' ∉ ("log::LevelFilter::" ++ levelOf word).toList
    unfold levelOf
    split_ifs <;> decide

end

/-- The number of slots is a valid expression, as the number of bits is brought between bounds. -/
theorem denotes_slotCount (text : String) :
    Denotes (settingsOf text).constants "usize" "1 << LOG2NPROC".toList
      (.expression "1 << LOG2NPROC") := by
  obtain ⟨c, hc, hname, htype, hvalue⟩ := @exists_defines
    ⟨"LOG2NPROC", "u32", "process", "log2_nproc", .clamped 1 16 8⟩ (by simp [knobs]) text
  obtain ⟨m, hm⟩ := literal_clamped 1 16 8 ((lastAssigned? text _).map scalarOf)
  have hclamp : 0 ≤ clamp 1 16 m ∧ clamp 1 16 m ≤ 16 := by
    unfold clamp
    omega
  obtain ⟨n, hn⟩ := Int.eq_ofNat_of_zero_le hclamp.1
  have hcount : c.value = .number n := (hvalue.trans hm).trans (congrArg _ hn)
  have hshift := @Denotes.shift _ _ _ c n rfl hc ⟨htype, hcount⟩ (by omega) rfl
  rwa [hname] at hshift

/-- From a text without headers the generator writes a file in which every definition stands on a
line of its own, and its literal means the value of the constant unless the configured value is put
there and spoils it: a text that holds a quote, a backslash or a carriage return, or a number below
zero. -/
theorem definitions_valid_iff {f : Files} {text : String} (hmenu : f.menu = some text)
    (h : NoHeader text) :
    (generate f).ok = true ∧
    ∃ (s : Settings) (v : Knob → Option Scalar),
      (generate f).constants = some s.constantsFile ∧
      (∀ knob, Option.Rel Reads (lastAssigned? text knob.name) (v knob)) ∧
      (∀ c ∈ s.constants, c.definition.toList ∈ textLines s.constantsFile.toList ∧
        (c.name = "NPROC" ∧ Constant.Valid s.constants c ∨ ∃ knob ∈ knobs, knob.Defines (v knob) c ∧
          (Constant.Valid s.constants c ↔ ¬Spoils knob.kind (v knob)))) ∧
      ∀ knob ∈ knobs, ∃ c ∈ s.constants, knob.Defines (v knob) c := by
  obtain ⟨hfile, hok⟩ := generate_of_noHeader hmenu h
  have hreads (knob : Knob) : Option.Rel Reads (lastAssigned? text knob.name)
      ((lastAssigned? text knob.name).map scalarOf) := rel_reads_iff.2 rfl
  have hnewline : ∀ c ∈ (settingsOf text).constants, '\n' ∉ c.value.render.toList := by
    intro c hc
    obtain ⟨-, -, hvalue⟩ | ⟨knob, hknob, hdefines⟩ := mem_constants hc
    · rw [hvalue]
      decide
    · rw [hdefines.value]
      exact newline_not_mem_render (knobs_sound knob hknob) fun s =>
        newline_not_mem_of_reads (hreads knob) fun cs => newline_not_mem_of_lastAssigned?
  refine ⟨hok, settingsOf text, _, hfile, hreads, fun c hc =>
    ⟨definition_mem_textLines hnewline hc, ?_⟩, fun knob hknob => exists_defines hknob text⟩
  obtain ⟨hname, htype, hvalue⟩ | ⟨knob, hknob, hdefines⟩ := mem_constants hc
  · refine .inl ⟨hname, ?_⟩
    rw [Constant.Valid, htype, hvalue]
    exact denotes_slotCount text
  · refine .inr ⟨knob, hknob, hdefines, ?_⟩
    rw [Constant.Valid, hdefines.type, hdefines.value]
    exact (knobs_sound knob hknob).denotes_iff fun n => number_lt_of_reads (hreads knob)

/-- A number of processors below zero is put into the file as it is. -/
theorem definitions_valid_iff_of_negative :
    let text := "smp_max_cpus=-1\n"
    NoHeader text ∧ ∃ s : Settings,
      (generate ⟨some text, none, none⟩).constants = some s.constantsFile ∧
      ∃ c ∈ s.constants, c.name = "MAX_CPUS" ∧ c.type = "usize" ∧ c.value = .number (-1) ∧
        c.definition.toList ∈ textLines s.constantsFile.toList ∧
        ¬Constant.Valid s.constants c := by
  intro text
  have hplain : NoHeader text := by decide
  obtain ⟨-, s, v, hfile, hreads, hvalid, hdefines⟩ :=
    definitions_valid_iff (f := ⟨some text, none, none⟩) rfl hplain
  let knob : Knob := ⟨"MAX_CPUS", "usize", "smp", "max_cpus", .number 4⟩
  have hv : v knob = some (.number (-1)) := by
    rw [← rel_reads_iff.1 (hreads knob)]
    decide
  obtain ⟨c, hc, hname, htype, hvalue⟩ := hdefines knob (by decide)
  have hunique : ∀ knob' ∈ knobs, knob'.constant = "MAX_CPUS" → knob' = knob := by decide
  obtain ⟨hline, ⟨hslots, -⟩ | ⟨knob', hknob', hdefines', hiff⟩⟩ := hvalid c hc
  · exact absurd (hslots.symm.trans hname) (by decide)
  · cases hunique knob' hknob' (hdefines'.name.symm.trans hname)
    rw [hv] at hiff hvalue
    exact ⟨hplain, s, hfile, c, hc, hname, htype, hvalue, hline, fun h =>
      hiff.1 h (.number (by decide))⟩

end SyncKernel.Configuration
