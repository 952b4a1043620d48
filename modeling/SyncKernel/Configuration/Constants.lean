import SyncKernel.Configuration.Settings

/-!
# The file of constants

The settings are handed to the compiler as a file of constant definitions in chapters.
`Settings.chapters` says which constant has which value, and `Settings.constantsFile` writes the
file.
-/

namespace SyncKernel.Configuration

/-- The value of a constant. -/
inductive Literal where
  /-- A text; it is put between quotes as it is. -/
  | text (s : String)
  /-- A whole number. -/
  | number (n : Int)
  /-- A truth value. -/
  | flag (b : Bool)
  /-- An expression of the language of the file. -/
  | expression (s : String)
deriving DecidableEq

/-- How a value is written. -/
def Literal.render : Literal → String
  | text s => "\"" ++ s ++ "\""
  | number n => toString n
  | flag b => if b then "true" else "false"
  | expression s => s

/-- The definition of a constant. -/
structure Constant where
  /-- The remark in front of it. -/
  remark : String
  /-- The name. -/
  name : String
  /-- The type. -/
  type : String
  /-- The value. -/
  value : Literal
deriving DecidableEq

/-- The lines of a definition. -/
def Constant.lines (c : Constant) : List String :=
  ["", "/// " ++ c.remark,
    "pub const " ++ c.name ++ ": " ++ c.type ++ " = " ++ c.value.render ++ ";"]

/-- A chapter of the file. -/
structure Chapter where
  /-- The title. -/
  title : String
  /-- The definitions. -/
  constants : List Constant

/-- The rule above and below a title. -/
def chapterRule : String :=
  "// " ++ String.ofList (List.replicate 60 '=')

/-- The lines of a chapter. -/
def Chapter.lines (c : Chapter) : List String :=
  ["", chapterRule, "// " ++ c.title, chapterRule] ++ c.constants.flatMap Constant.lines

namespace Settings

/-- The level that the word for the log level stands for; other words stand for the default level.
-/
def levelName (s : Settings) : String :=
  if s.logLevel = "error" then "Error"
  else if s.logLevel = "warn" then "Warn"
  else if s.logLevel = "debug" then "Debug"
  else if s.logLevel = "trace" then "Trace"
  else "Info"

/-- The chapters of the file. -/
def chapters (s : Settings) : List Chapter :=
  [⟨"基本信息", [
      ⟨"内核名称", "KERNEL_NAME", "&str", .text s.name⟩,
      ⟨"内核版本", "KERNEL_VERSION", "&str", .text s.version⟩,
      ⟨"目标平台", "TARGET_PLATFORM", "&str", .text s.platform⟩]⟩,
    ⟨"SMP / 进程表配置", [
      ⟨"最大CPU数量", "MAX_CPUS", "usize", .number s.cpuCount⟩,
      ⟨"进程表槽位数的位宽", "LOG2NPROC", "u32", .number s.slotBits⟩,
      ⟨"进程表槽位数", "NPROC", "usize", .expression "1 << LOG2NPROC"⟩]⟩,
    ⟨"内存配置", [
      ⟨"页大小", "PAGE_SIZE", "usize", .number s.pageSize⟩,
      ⟨"用户地址空间上限（不含）", "USER_ADDR_LIMIT", "usize", .number s.userLimit⟩]⟩,
    ⟨"Futex 配置", [
      ⟨"是否启用 futex", "ENABLE_FUTEX", "bool", .flag s.futexEnabled⟩,
      ⟨"futex 哈希桶数量", "FUTEX_HASH_SIZE", "usize", .number s.bucketCount⟩,
      ⟨"robust list 最大遍历长度", "ROBUST_LIST_LIMIT", "usize", .number s.robustLimit⟩]⟩,
    ⟨"信号配置", [
      ⟨"是否启用信号处理", "ENABLE_SIGNAL", "bool", .flag s.signalsEnabled⟩,
      ⟨"信号数量（合法编号 1..=NSIG）", "NSIG", "usize", .number s.signalCount⟩,
      ⟨"每进程待处理信号队列容量", "SIG_QUEUE_MAX", "usize", .number s.queueCapacity⟩,
      ⟨"信号帧对齐", "SIGFRAME_ALIGN", "usize", .number s.frameAlignment⟩]⟩,
    ⟨"IPC 配置", [
      ⟨"是否启用 IPC 超时扫描", "ENABLE_IPC_TIMEOUT", "bool", .flag s.sweepEnabled⟩,
      ⟨"周期性 IPC 超时扫描间隔 (毫秒)", "IPC_SWEEP_INTERVAL_MS", "u64", .number s.sweepInterval⟩]⟩,
    ⟨"调试配置", [
      ⟨"默认日志级别", "LOG_LEVEL", "log::LevelFilter",
        .expression ("log::LevelFilter::" ++ s.levelName)⟩]⟩]

/-- The lines in front of the first chapter. -/
def heading : List String :=
  ["//! Rux 同步核心配置（自动生成）",
    "//!",
    "//! 此文件由 build.rs 根据 Kernel.toml 自动生成，请勿手动修改"]

/-- The text of the file. -/
def constantsFile (s : Settings) : String :=
  String.join ((heading ++ s.chapters.flatMap Chapter.lines).map (· ++ "\n"))

end Settings

end SyncKernel.Configuration
