import CoverageRatchet.Repository.Identity
import CoverageRatchet.Run.Journal

/-!
# Committing and pushing the reference

The reference is committed alone, in the repository that holds it, under an identity that is
fixed for author and committer alike. A push goes from the repository of the project.
-/
namespace CoverageRatchet.Run

variable {σ : Type}

def locate (sys : System σ) (file : Path) : Run σ (Repository × Path) := do
  let absolute ← orFail (.fileUnresolved file) (← ask (sys.resolve file))
  let directory ← orMissing .fileWithoutParent absolute.parent?
  let repository ← orMissing (.notInRepository directory) (← ask (sys.discover directory))
  let work ← orMissing .bareRepository repository.workDirectory
  let root ← orFail .workDirectoryUnresolved (← ask (sys.resolve work))
  let relative ← orMissing (.outsideWorkDirectory absolute root) (absolute.below? root)
  return (repository, relative)

def gitInvocation (work : Path) (arguments : List Bytes) (environment : List (Bytes × Bytes)) :
    Invocation where
  program := utf8 "git"
  arguments := utf8 "-C" :: work.bytes :: arguments
  directory := none
  environment := environment

def addInvocation (work file : Path) : Invocation :=
  gitInvocation work [utf8 "add", utf8 "--", file.bytes] []

/-- A commit of one file. Inherited variables would outrank the settings given as arguments, so
both name the identity. -/
def commitInvocation (work file : Path) (identity : Identity) (message : String) : Invocation :=
  gitInvocation work
    [utf8 "-c", utf8 ("user.name=" ++ identity.name), utf8 "-c",
      utf8 ("user.email=" ++ identity.email), utf8 "commit", utf8 "-m", utf8 message,
      utf8 "--", file.bytes]
    [(utf8 "GIT_AUTHOR_NAME", utf8 identity.name),
      (utf8 "GIT_AUTHOR_EMAIL", utf8 identity.email),
      (utf8 "GIT_COMMITTER_NAME", utf8 identity.name),
      (utf8 "GIT_COMMITTER_EMAIL", utf8 identity.email)]

def pushInvocation (work : Path) (remote refspec : String) : Invocation :=
  gitInvocation work [utf8 "push", utf8 remote, utf8 refspec] []

def git (sys : System σ) (invocation : Invocation) (reason : RunError) : Run σ Unit := do
  let completed ← orFail .gitNotStarted (← start sys invocation)
  if completed.status.isSuccess then return else throw reason

def wouldRun (work : Path) (arguments : String) : Run σ Unit :=
  log .repository .info ("[dry-run] Would run: git -C " ++ work.display ++ " " ++ arguments)

/-- Commits a reference file. The answer says whether there is a new commit. -/
def commitReference (sys : System σ) (file : Path) (settings : Settings) (message : String)
    (dryRun : Bool) : Run σ Bool := do
  let (repository, relative) ← locate sys file
  let work ← orMissing .bareRepository repository.workDirectory
  let (identity, source) ← ask (Identity.choose sys repository settings)
  log .repository .debug
    ("Committing as " ++ identity.name ++ " <" ++ identity.email ++ "> (from " ++
      source.description ++ ")")
  if dryRun then
    wouldRun work ("add " ++ relative.display)
    wouldRun work ("commit -m \"" ++ message ++ "\" -- " ++ relative.display)
    return false
  else
    match ← ask (sys.fileStatus repository relative) with
    | none => throw .statusUnknown
    | some .ignored => throw (.fileIgnored relative)
    | some .unchanged =>
      log .repository .info
        ("'" ++ relative.display ++ "' is unchanged against HEAD; nothing to commit.")
      return false
    | some .changed =>
      git sys (addInvocation work relative) .notStaged
      git sys (commitInvocation work relative identity message) .notCommitted
      log .repository .info ("Committed '" ++ relative.display ++ "'")
      return true

def pushReference (sys : System σ) (directory : Path) (remote refspec : String)
    (dryRun : Bool) : Run σ Unit := do
  let repository ← orMissing (.notInRepository directory) (← ask (sys.discover directory))
  if ← ask (sys.hasRemote repository remote) then
    let work ← orMissing .bareRepository repository.workDirectory
    if dryRun then wouldRun work ("push " ++ remote ++ " " ++ refspec)
    else
      git sys (pushInvocation work remote refspec) .notPushed
      log .repository .info ("Pushed '" ++ refspec ++ "' to '" ++ remote ++ "'")
  else throw (.noRemote remote)

def gitInstalled (sys : System σ) : Run σ Bool := do
  match ← start sys ⟨utf8 "git", [utf8 "--version"], none, []⟩ with
  | .ok completed => return completed.status.isSuccess
  | .error _ => return false

end CoverageRatchet.Run
