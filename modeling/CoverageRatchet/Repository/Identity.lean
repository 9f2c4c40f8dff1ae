import CoverageRatchet.Settings
import CoverageRatchet.System

/-!
# The identity of commits

A name and an address always come together from one source, the first one that has both. A
variable counts only when its value is text.
-/
namespace CoverageRatchet

structure Identity where
  name : String
  email : String
  deriving DecidableEq, Repr

inductive IdentitySource where
  | settings
  | author
  | committer
  | repository
  | fallback
  deriving DecidableEq, Repr

def IdentitySource.description : IdentitySource → String
  | settings => "covref.toml [identity]"
  | author => "env:GIT_AUTHOR_NAME/GIT_AUTHOR_EMAIL"
  | committer => "env:GIT_COMMITTER_NAME/GIT_COMMITTER_EMAIL"
  | repository => "git config (repo/global)"
  | fallback => "covref fallback"

namespace Identity

variable {σ : Type}

/-- The identity that is used when no source supplies one. -/
def fallback : Identity := ⟨"Coverage Build", "coverage-build@localhost"⟩

def ofParts? (name email : Option String) : Option Identity :=
  match name, email with
  | some name, some email => some ⟨name, email⟩
  | _, _ => none

def variableText? (sys : System σ) (name : String) (state : σ) : Option String :=
  (sys.getVariable name state).bind text?

def ofSource? (sys : System σ) (repository : Repository) (settings : Settings) (state : σ) :
    IdentitySource → Option Identity
  | .settings => ofParts? settings.identityName settings.identityEmail
  | .author =>
    ofParts? (variableText? sys "GIT_AUTHOR_NAME" state)
      (variableText? sys "GIT_AUTHOR_EMAIL" state)
  | .committer =>
    ofParts? (variableText? sys "GIT_COMMITTER_NAME" state)
      (variableText? sys "GIT_COMMITTER_EMAIL" state)
  | .repository =>
    ofParts? (sys.repositorySetting repository "user.name" state)
      (sys.repositorySetting repository "user.email" state)
  | .fallback => some fallback

/-- The sources in the order in which they are tried, but for the last one. -/
def sources : List IdentitySource :=
  [.settings, .author, .committer, .repository]

/-- The identity of the first source that supplies one, and that source. -/
def choose (sys : System σ) (repository : Repository) (settings : Settings) (state : σ) :
    Identity × IdentitySource :=
  (sources.findSome? fun source =>
    (ofSource? sys repository settings state source).map (·, source)).getD (fallback, .fallback)

end Identity

end CoverageRatchet
