import CoverageRatchet.Proofs.GitProtocol

/-!
# Whose commits they are

The identity of commits comes whole from the first source that has both a name and an address. The
process that commits is given it six times over, so that nothing that it inherits can take its
place.
-/
namespace CoverageRatchet

namespace Identity

variable {σ : Type} {sys : System σ} {repository : Repository} {settings : Settings} {s : σ}
  {source : IdentitySource} {identity : Identity} {description : String}

/-- A source supplies a name and an address, both of them text, under a description of its own. -/
inductive Supplies (sys : System σ) (repository : Repository) (settings : Settings) (s : σ) :
    IdentitySource → Identity → String → Prop
  | settings {name email : String} : settings.identityName = some name →
      settings.identityEmail = some email →
      Supplies sys repository settings s .settings ⟨name, email⟩ "covref.toml [identity]"
  | author {name email : String} : sys.getVariable "GIT_AUTHOR_NAME" s = some (utf8 name) →
      sys.getVariable "GIT_AUTHOR_EMAIL" s = some (utf8 email) →
      Supplies sys repository settings s .author ⟨name, email⟩
        "env:GIT_AUTHOR_NAME/GIT_AUTHOR_EMAIL"
  | committer {name email : String} :
      sys.getVariable "GIT_COMMITTER_NAME" s = some (utf8 name) →
      sys.getVariable "GIT_COMMITTER_EMAIL" s = some (utf8 email) →
      Supplies sys repository settings s .committer ⟨name, email⟩
        "env:GIT_COMMITTER_NAME/GIT_COMMITTER_EMAIL"
  | repository {name email : String} :
      sys.repositorySetting repository "user.name" s = some name →
      sys.repositorySetting repository "user.email" s = some email →
      Supplies sys repository settings s .repository ⟨name, email⟩ "git config (repo/global)"
  | fallback : Supplies sys repository settings s .fallback
      ⟨"Coverage Build", "coverage-build@localhost"⟩ "covref fallback"

/-- The sources in the order in which they are tried. -/
def ranking : List IdentitySource :=
  [.settings, .author, .committer, .repository, .fallback]

/-- The first source that supplies an identity. -/
structure FirstSupplied (sys : System σ) (repository : Repository) (settings : Settings) (s : σ)
    (source : IdentitySource) (identity : Identity) (description : String) : Prop where
  supplies : Supplies sys repository settings s source identity description
  first : ∃ before after, ranking = before ++ source :: after ∧
    ∀ earlier ∈ before, ∀ other text, ¬Supplies sys repository settings s earlier other text

theorem ofParts?_eq_some_iff {name email : Option String} :
    ofParts? name email = some identity ↔
      name = some identity.name ∧ email = some identity.email := by
  obtain ⟨given, address⟩ := identity
  cases name <;> cases email <;> simp [ofParts?]

theorem variableText?_eq_some_iff {name text : String} :
    variableText? sys name s = some text ↔ sys.getVariable name s = some (utf8 text) := by
  unfold variableText?
  rw [Option.bind_eq_some_iff]
  constructor
  · rintro ⟨bytes, hbytes, htext⟩
    rwa [text?_eq_some_iff.mp htext] at hbytes
  · intro h
    exact ⟨_, h, text?_utf8 text⟩

theorem ofSource?_eq_some_iff : ofSource? sys repository settings s source = some identity ↔
    Supplies sys repository settings s source identity source.description := by
  cases source with
  | settings =>
    simp only [ofSource?, ofParts?_eq_some_iff]
    constructor
    · rintro ⟨hname, hemail⟩
      exact .settings hname hemail
    · intro h
      cases h with
      | settings hname hemail => exact ⟨hname, hemail⟩
  | author =>
    simp only [ofSource?, ofParts?_eq_some_iff, variableText?_eq_some_iff]
    constructor
    · rintro ⟨hname, hemail⟩
      exact .author hname hemail
    · intro h
      cases h with
      | author hname hemail => exact ⟨hname, hemail⟩
  | committer =>
    simp only [ofSource?, ofParts?_eq_some_iff, variableText?_eq_some_iff]
    constructor
    · rintro ⟨hname, hemail⟩
      exact .committer hname hemail
    · intro h
      cases h with
      | committer hname hemail => exact ⟨hname, hemail⟩
  | repository =>
    simp only [ofSource?, ofParts?_eq_some_iff]
    constructor
    · rintro ⟨hname, hemail⟩
      exact .repository hname hemail
    · intro h
      cases h with
      | repository hname hemail => exact ⟨hname, hemail⟩
  | fallback =>
    constructor
    · rintro ⟨⟩
      exact .fallback
    · rintro ⟨⟩
      rfl

theorem Supplies.description_eq
    (h : Supplies sys repository settings s source identity description) :
    description = source.description := by
  cases h <;> rfl

theorem ofSource?_eq_none_iff : ofSource? sys repository settings s source = none ↔
    ∀ other text, ¬Supplies sys repository settings s source other text := by
  rw [Option.eq_none_iff_forall_ne_some]
  constructor
  · intro h other text hsupplies
    have hdescription := hsupplies.description_eq
    subst hdescription
    exact h other (ofSource?_eq_some_iff.mpr hsupplies)
  · exact fun h other hsome => h other _ (ofSource?_eq_some_iff.mp hsome)

/-- The identity and the description are those of the first source that supplies one. -/
theorem choose_eq_iff :
    choose sys repository settings s = (identity, source) ∧ source.description = description ↔
      FirstSupplied sys repository settings s source identity description := by
  have hchoose : ranking.findSome? (fun source =>
      (ofSource? sys repository settings s source).map (·, source)) =
        some (choose sys repository settings s) := by
    have hranking : ranking = sources ++ [.fallback] := rfl
    rw [hranking, List.findSome?_append]
    unfold choose
    cases sources.findSome? fun source =>
      (ofSource? sys repository settings s source).map (·, source) <;> rfl
  constructor
  · rintro ⟨hsome, rfl⟩
    rw [hsome] at hchoose
    obtain ⟨before, found, after, hranking, hfound, hbefore⟩ :=
      List.findSome?_eq_some_iff.mp hchoose
    obtain ⟨other, hother, heq⟩ := Option.map_eq_some_iff.mp hfound
    cases heq
    refine ⟨ofSource?_eq_some_iff.mp hother, before, after, hranking, fun earlier hearlier => ?_⟩
    exact ofSource?_eq_none_iff.mp (Option.map_eq_none_iff.mp (hbefore earlier hearlier))
  · rintro ⟨hsupplies, before, after, hranking, hbefore⟩
    obtain rfl := hsupplies.description_eq
    refine ⟨?_, rfl⟩
    have hfound : ranking.findSome? (fun source =>
        (ofSource? sys repository settings s source).map (·, source)) =
          some (identity, source) := by
      refine List.findSome?_eq_some_iff.mpr ⟨before, source, after, hranking, ?_, ?_⟩
      · rw [ofSource?_eq_some_iff.mpr hsupplies]
        rfl
      · intro earlier hearlier
        rw [ofSource?_eq_none_iff.mpr (hbefore earlier hearlier)]
        rfl
    exact Option.some.inj (hchoose.symm.trans hfound)

end Identity

/-- The value that a process finds in a variable. What has been set last counts, and what is
inherited only when nothing has been set. -/
def Invocation.valueOf? (invocation : Invocation) (inherited : Bytes → Option Bytes)
    (name : Bytes) : Option Bytes :=
  ((invocation.environment.reverse.find? (·.1 = name)).map Prod.snd).or (inherited name)

namespace Run

variable {σ : Type} {sys : System σ} {file : Path} {settings : Settings} {message : String}
  {dryRun : Bool} {s : σ}

/-- The command of git behind the options that stand before it. -/
def gitCommand? : List Bytes → Option Bytes
  | option :: _ :: rest =>
    if option = utf8 "-C" ∨ option = utf8 "-c" then gitCommand? rest else some option
  | [command] => some command
  | [] => none

/-- The settings that the options before the command of git give it. -/
def gitSettings : List Bytes → List Bytes
  | option :: value :: rest =>
    if option = utf8 "-c" then value :: gitSettings rest
    else if option = utf8 "-C" then gitSettings rest
    else []
  | _ => []

def IsCommit (invocation : Invocation) : Prop :=
  invocation.program = utf8 "git" ∧ gitCommand? invocation.arguments = some (utf8 "commit")

instance (invocation : Invocation) : Decidable (IsCommit invocation) :=
  inferInstanceAs (Decidable (_ ∧ _))

/-- A process is given one identity in all the places where git looks for one. -/
structure CommitsAs (invocation : Invocation) (identity : Identity) : Prop where
  settings : gitSettings invocation.arguments =
    [utf8 ("user.name=" ++ identity.name), utf8 ("user.email=" ++ identity.email)]
  authorName : ∀ inherited, invocation.valueOf? inherited (utf8 "GIT_AUTHOR_NAME") =
    some (utf8 identity.name)
  authorEmail : ∀ inherited, invocation.valueOf? inherited (utf8 "GIT_AUTHOR_EMAIL") =
    some (utf8 identity.email)
  committerName : ∀ inherited, invocation.valueOf? inherited (utf8 "GIT_COMMITTER_NAME") =
    some (utf8 identity.name)
  committerEmail : ∀ inherited, invocation.valueOf? inherited (utf8 "GIT_COMMITTER_EMAIL") =
    some (utf8 identity.email)

theorem utf8_inj {a b : String} : utf8 a = utf8 b ↔ a = b :=
  ⟨utf8_injective, congrArg utf8⟩

theorem commitsAs_commitInvocation (work file : Path) (identity : Identity) (message : String) :
    CommitsAs (commitInvocation work file identity message) identity where
  settings := by simp [commitInvocation, gitInvocation, gitSettings, utf8_inj]
  authorName _ := by
    simp [Invocation.valueOf?, commitInvocation, gitInvocation, utf8_inj]
  authorEmail _ := by
    simp [Invocation.valueOf?, commitInvocation, gitInvocation, utf8_inj]
  committerName _ := by
    simp [Invocation.valueOf?, commitInvocation, gitInvocation, utf8_inj]
  committerEmail _ := by
    simp [Invocation.valueOf?, commitInvocation, gitInvocation]

theorem not_isCommit_addInvocation (work file : Path) : ¬IsCommit (addInvocation work file) := by
  rintro ⟨-, h⟩
  simp [addInvocation, gitInvocation, gitCommand?, utf8_inj] at h

/-- Every process that a run starts is one of those that are known. -/
def StartsOnly (known : Invocation → Prop) (_ : σ) (done : List Event) (_ : σ) : Prop :=
  ∀ invocation answer, Event.started invocation answer ∈ done → known invocation

instance (known : Invocation → Prop) : Composable (StartsOnly (σ := σ) known) where
  nil _ := by simp [StartsOnly]
  append h h' invocation answer hmem :=
    (List.mem_append.mp hmem).elim (h invocation answer) (h' invocation answer)

theorem keeps_startsOnly {known : Invocation → Prop} {invocation : Invocation}
    (h : known invocation) : Keeps (StartsOnly known) (start sys invocation) := by
  intro s
  refine ⟨_, _, _, does_start sys invocation s, fun other answer hmem => ?_⟩
  cases List.mem_singleton.mp hmem
  exact h

/-- The processes that committing a file may start. -/
def Staging (l : Location) (identity : Identity) (message : String) (invocation : Invocation) :
    Prop :=
  invocation = addInvocation l.work l.relative ∨
    invocation = commitInvocation l.work l.relative identity message

/-- A part of a run that does nothing leaves the rest to what is known of it. -/
theorem Does.exists_then {α β : Type} {run : Run σ α} {next : α → Run σ β} {value : α}
    {P : σ → List Event → σ → Prop} (h : Does run s (.ok value) [] s)
    (hnext : ∃ result done t, Does (next value) s result done t ∧ P s done t) :
    ∃ result done t, Does (run >>= next) s result done t ∧ P s done t := by
  obtain ⟨result, done, t, hdoes, hdone⟩ := hnext
  exact ⟨result, done, t, h.then hdoes, hdone⟩

theorem Locates.starts_commitReference {l : Location} (h : Locates sys file s l) :
    ∃ result done t, Does (commitReference sys file settings message false) s result done t ∧
      StartsOnly (Staging l (Identity.choose sys l.repository settings s).1 message) s done t := by
  refine h.does_locate.exists_then ((does_orMissing_some h.works s).exists_then ?_)
  refine (does_ask (Identity.choose sys l.repository settings) s).exists_then ?_
  generalize Identity.choose sys l.repository settings s = chosen
  obtain ⟨identity, source⟩ := chosen
  refine (does_log _ _ _ s).exists_then ?_
  refine (Keeps.bind (.ask _) fun status => ?_ :
    Keeps (StartsOnly (Staging l identity message)) _) s
  split
  · exact .throw _
  · exact .throw _
  · exact .bind (.log _ _ _) fun _ => .pure _
  · refine .bind (keeps_git (keeps_startsOnly (.inl rfl)) _) fun _ => ?_
    refine .bind (keeps_git (keeps_startsOnly (.inr rfl)) _) fun _ => ?_
    exact .bind (.log _ _ _) fun _ => .pure _

theorem StartsOnly.imp {known known' : Invocation → Prop} {done : List Event} {t : σ}
    (h : StartsOnly known s done t) (himp : ∀ invocation, known invocation → known' invocation) :
    StartsOnly known' s done t :=
  fun invocation answer hmem => himp invocation (h invocation answer hmem)

/-- Processes are started only for a file that lies in a repository, and not in a dry run. -/
theorem starts_commitReference (sys : System σ) (file : Path) (settings : Settings)
    (message : String) (dryRun : Bool) (s : σ) :
    ∃ result done t, Does (commitReference sys file settings message dryRun) s result done t ∧
      StartsOnly (fun invocation => dryRun = false ∧ ∃ l, Locates sys file s l ∧
        Staging l (Identity.choose sys l.repository settings s).1 message invocation) s done t := by
  cases dryRun with
  | true => exact keeps_commitReference (by simp) file settings message s
  | false =>
    by_cases hlocated : ∃ l, Locates sys file s l
    · obtain ⟨l, hl⟩ := hlocated
      obtain ⟨result, done, t, hdoes, hstarts⟩ := hl.starts_commitReference
      exact ⟨result, done, t, hdoes, hstarts.imp fun _ hstaging => ⟨rfl, l, hl, hstaging⟩⟩
    · have hasked := (keeps_locate sys file).does s
      rcases hfound : ((locate sys file).onState s).1 with e | found
      · rw [hfound] at hasked
        exact ⟨.error e, [], s, hasked.bind_error, by simp [StartsOnly]⟩
      · obtain ⟨l, hl, -⟩ := locate_eq_ok.mp hfound
        exact absurd ⟨l, hl⟩ hlocated

/-- The identity of commits comes whole from the first source that supplies one, and a process that
commits is given nothing else, whatever it inherits. -/
theorem commit_identity (sys : System σ) (settings : Settings) (s : σ) :
    (∀ repository, ∃ source identity description,
      Identity.FirstSupplied sys repository settings s source identity description) ∧
    (∀ repository source identity description,
      (Identity.choose sys repository settings s = (identity, source) ∧
        source.description = description) ↔
      Identity.FirstSupplied sys repository settings s source identity description) ∧
    ∀ file message dryRun,
      ∀ event ∈ ((commitReference sys file settings message dryRun).onState s).2.events,
      ∀ invocation answer, event = .started invocation answer → IsCommit invocation →
        ∃ l source identity description, Locates sys file s l ∧
          Identity.FirstSupplied sys l.repository settings s source identity description ∧
          CommitsAs invocation identity ∧
          invocation = commitInvocation l.work l.relative identity message := by
  refine ⟨fun repository => ?_, fun _ _ _ _ => Identity.choose_eq_iff, ?_⟩
  · exact ⟨_, _, _, Identity.choose_eq_iff.mp ⟨rfl, rfl⟩⟩
  · rintro file message dryRun _ hevent invocation answer rfl hcommit
    obtain ⟨result, done, t, hdoes, hstarts⟩ :=
      starts_commitReference sys file settings message dryRun s
    have hdone : Event.started invocation answer ∈ done := by
      rw [← hdoes.onState.2.2]
      exact List.mem_filter.mpr ⟨hevent, rfl⟩
    obtain ⟨-, l, hl, rfl | rfl⟩ := hstarts invocation answer hdone
    · exact absurd hcommit (not_isCommit_addInvocation _ _)
    · exact ⟨l, _, _, _, hl, Identity.choose_eq_iff.mp ⟨rfl, rfl⟩,
        commitsAs_commitInvocation _ _ _ _, rfl⟩

/-- Settings with half an identity. -/
def namedSettings : Settings :=
  { Settings.empty with identityName := some "Ratchet" }

def commits : Event → Bool
  | .started invocation _ => decide (IsCommit invocation)
  | _ => false

/-- Half an identity does not count: the sample is committed under one of another source. -/
theorem commit_identity_sample :
    ∃ invocation answer l source identity description, Event.started invocation answer ∈
        ((commitReference Machine.system (.ofText "coverage.csv") namedSettings "Better"
          false).onState sampleRepository).2.events ∧
      IsCommit invocation ∧ CommitsAs invocation identity ∧ source ≠ .settings ∧
      Identity.FirstSupplied Machine.system l namedSettings sampleRepository source identity
        description := by
  obtain ⟨-, -, hcommits⟩ := commit_identity Machine.system namedSettings sampleRepository
  have hstarted : ((commitReference Machine.system (.ofText "coverage.csv") namedSettings "Better"
      false).onState sampleRepository).2.events.any commits = true := by decide +kernel
  obtain ⟨event, hevent, hcommit⟩ := List.any_eq_true.mp hstarted
  cases event with
  | started invocation answer =>
    have hcommit : IsCommit invocation := of_decide_eq_true hcommit
    obtain ⟨l, source, identity, description, -, hfirst, hpinned, -⟩ :=
      hcommits _ _ _ _ hevent invocation answer rfl hcommit
    refine ⟨invocation, answer, l.repository, source, identity, description, hevent, hcommit,
      hpinned, ?_, hfirst⟩
    rintro rfl
    cases hfirst.supplies with
    | settings _ hemail => cases hemail
  | logged _ => cases hcommit
  | printed _ => cases hcommit
  | complained _ => cases hcommit
  | wrote _ _ _ => cases hcommit

end Run

end CoverageRatchet
