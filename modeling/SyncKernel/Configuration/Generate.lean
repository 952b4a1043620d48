import SyncKernel.Configuration.Constants

/-!
# Generating the constants

The generator reads a configuration, prints directions for the build and writes the file of
constants. The configuration of the menu program is preferred to the document in the source tree;
without either all settings have their defaults. A malformed document stops the generator after its
first lines.
-/

namespace SyncKernel.Configuration

/-- The files that the generator finds. -/
structure Files where
  /-- The configuration of the menu program. -/
  menu : Option String := none
  /-- The document in the source tree. -/
  document : Option String := none
  /-- The file of constants of an earlier run. -/
  constants : Option String := none

/-- What the generator leaves. -/
structure Generated where
  /-- The printed text. -/
  printed : String
  /-- The file of constants; it is unchanged if the generator stopped. -/
  constants : Option String
  /-- Whether the configuration was well formed. -/
  ok : Bool
deriving DecidableEq

/-- The text that is read as configuration. -/
def Files.configuration (f : Files) : String :=
  f.menu.getD (f.document.getD "")

/-- The lines that name the files the build depends on. -/
def dependencyLines : List String :=
  ["cargo:rerun-if-changed=../Kernel.toml", "cargo:rerun-if-changed=../build/.config"]

/-- A list of lines as text. -/
def unlines (lines : List String) : String :=
  String.join (lines.map (· ++ "\n"))

/-- Run the generator. -/
def generate (f : Files) : Generated :=
  let first := dependencyLines ++
    (if f.menu.isSome then ["cargo:warning=Using build/.config configuration"] else [])
  match Source.read? f.configuration.toList with
  | none => ⟨unlines first, f.constants, false⟩
  | some source =>
    let settings := Settings.ofSource source
    let more :=
      ["cargo:rustc-env=RUX_TARGET_PLATFORM=" ++ settings.platform,
        "cargo:rustc-env=RUX_LOG_LEVEL=" ++ settings.logLevel]
    ⟨unlines (first ++ more), some settings.constantsFile, true⟩

end SyncKernel.Configuration
