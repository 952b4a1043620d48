import SyncKernel.Configuration.Generate

/-!
# The configuration program

Run in the directory of the kernel's sources, the program reads the configuration beside it, prints
the directions for the build, and writes the file of constants if its text has changed. What is
printed and written is `Configuration.generate` of the files it finds.
-/

namespace SyncKernel.Configuration

/-- Where the menu program leaves its configuration. -/
def menuFile : String := "../build/.config"

/-- Where the document in the source tree is. -/
def documentFile : String := "../Kernel.toml"

/-- Where the constants go. -/
def constantsFile : String := "src/config.rs"

/-- The text of a file, if it can be read. -/
def readText? (path : String) : IO (Option String) := do
  try
    return some (← IO.FS.readFile path)
  catch _ =>
    return none

/-- Read the files, run the generator, and leave what it leaves. The exit code is 101 for a
malformed configuration. -/
def runGenerator : IO UInt32 := do
  let constants ← readText? constantsFile
  let generated := generate ⟨← readText? menuFile, ← readText? documentFile, constants⟩
  IO.print generated.printed
  match generated.constants with
  | some text => if constants ≠ some text then IO.FS.writeFile constantsFile text
  | none => pure ()
  return if generated.ok then 0 else 101

end SyncKernel.Configuration

/-- Run the generator in the present directory. -/
def main : IO UInt32 := SyncKernel.Configuration.runGenerator
