import CoverageRatchet.Reference.Table
import CoverageRatchet.Run.Journal
import CoverageRatchet.Run.Project

/-!
# Reading and writing the reference file
-/
namespace CoverageRatchet.Run

variable {σ : Type}

def readReference (sys : System σ) (file : Path) : Run σ Snapshot := do
  let text ← orFail (.referenceUnreadable file) (textOf (← ask (sys.readFile file)))
  orFail (.referenceFaulty file) (ReferenceTable.parse text)

/-- Creates the directory of a file when it is missing. -/
def createParent (sys : System σ) (file : Path) : Run σ Unit := do
  match file.parent? with
  | none => return
  | some directory =>
    if directory.bytes = [] ∨ (← ask (sys.pathExists directory)) then return
    else orFail .directoryNotCreated (← act (sys.createDirectories directory))

def writeReference (sys : System σ) (s : Snapshot) (file : Path) : Run σ Unit := do
  createParent sys file
  let result ← write sys file (utf8 (ReferenceTable.format s))
  orFail (.referenceNotWritten file) result
  log .reference .debug
    ("Wrote " ++ toString s.size ++ " entries to '" ++ file.display ++ "'")

end CoverageRatchet.Run
