import CoverageRatchet.Proofs.CheckoutRuns

/-!
# Options in the settings and on the command line

The test command, the reference, the remote and the message of commits can be given in the settings
of a project and on the command line. Where the settings are asked does not matter: a run goes the
same way when the command line gives what the settings gave before, and an option that the command
line gives is not looked for in the settings at all.
-/
namespace CoverageRatchet

namespace Settings

/-- Settings without those that a command line can give as well. -/
def withoutOptions (s : Settings) : Settings :=
  { s with testCommand := none, reference := none, remote := none, message := none }

/-- The keys of a settings file whose values a command line can give as well. -/
def optionKeys : List String :=
  ["test_command", "reference", "remote", "message"]

def removeOptions (table : Toml.Table) : Toml.Table :=
  table.filter fun entry => !optionKeys.contains entry.1

theorem lookup_removeOptions (table : Toml.Table) (key : String) :
    (removeOptions table).lookup key =
      if key ∈ optionKeys then none else table.lookup key := by
  induction table with
  | nil => simp [removeOptions]
  | cons entry rest ih =>
    obtain ⟨name, value⟩ := entry
    unfold removeOptions at ih ⊢
    by_cases hname : name ∈ optionKeys
    · rw [List.filter_cons_of_neg (by simp [hname]), ih, lookup_entry]
      by_cases hkey : key = name
      · simp [hkey, hname]
      · simp [hkey]
    · rw [List.filter_cons_of_pos (by simp [hname]), lookup_entry, lookup_entry, ih]
      by_cases hkey : key = name
      · simp [hkey, hname]
      · simp [hkey]

theorem text?_removeOptions (table : Toml.Table) (key : String) :
    text? (removeOptions table) key = if key ∈ optionKeys then .ok none else text? table key := by
  unfold text?
  rw [lookup_removeOptions]
  by_cases hkey : key ∈ optionKeys
  · simp [hkey]
  · simp [hkey]

theorem table?_removeOptions {table : Toml.Table} {key : String} (h : key ∉ optionKeys) :
    table? (removeOptions table) key = table? table key := by
  unfold table?
  rw [lookup_removeOptions, if_neg h]

/-- Removing the options from a table of settings that can be read removes them from the
settings. -/
theorem ofTable_removeOptions {table : Toml.Table} {settings : Settings}
    (h : ofTable table = .ok settings) :
    ofTable (removeOptions table) = .ok settings.withoutOptions := by
  simp only [ofTable, bind_eq_ok_iff] at h ⊢
  obtain ⟨command, hcommand, reference, hreference, remote, hremote, refspec, hrefspec, message,
    hmessage, identity, hidentity, name, hname, email, hemail, env, henv, environment,
    henvironment, hresult⟩ := h
  cases hresult
  refine ⟨none, ?_, none, ?_, none, ?_, refspec, ?_, none, ?_, identity, ?_, name, hname, email,
    hemail, env, ?_, environment, henvironment, rfl⟩
  all_goals simp [text?_removeOptions, table?_removeOptions, optionKeys, *]

end Settings

/-- A command line with other values for the options that settings can give as well. -/
def CommandLine.withOptions (c : CommandLine)
    (testCommand reference remote message : Option String) : CommandLine :=
  { c with
    testCommand := testCommand
    reference := reference
    remote := remote
    message := message }

/-- A command line with the options that it does not give taken from settings. -/
def CommandLine.filled (c : CommandLine) (s : Settings) : CommandLine :=
  c.withOptions (c.testCommand.or s.testCommand) (c.reference.or s.reference)
    (c.remote.or s.remote) (c.message.or s.message)

namespace Run

variable {σ : Type} {R : σ → σ → Prop} {sys : System σ} {c c' : CommandLine} {s t : σ}
  {file project : Path} {settings settings' : Settings}

/-- Two command lines that ask for the same, each with settings of its own. -/
structure SameOrders (c c' : CommandLine) (settings settings' : Settings) : Prop where
  line : c' = c.withOptions c'.testCommand c'.reference c'.remote c'.message
  options : Options.ofCommandLine c settings = Options.ofCommandLine c' settings'
  identityName : settings.identityName = settings'.identityName
  identityEmail : settings.identityEmail = settings'.identityEmail
  environment : settings.environment = settings'.environment

theorem sameOrders_filled (c : CommandLine) (settings : Settings) :
    SameOrders c (c.filled settings) settings settings.withoutOptions where
  line := rfl
  options := by
    simp [Options.ofCommandLine, CommandLine.filled, CommandLine.withOptions,
      Settings.withoutOptions]
  identityName := rfl
  identityEmail := rfl
  environment := rfl

/-- Settings that differ at most in options that a command line gives itself. -/
structure Overridden (c : CommandLine) (settings settings' : Settings) : Prop where
  testCommand : c.testCommand = none → settings.testCommand = settings'.testCommand
  reference : c.reference = none → settings.reference = settings'.reference
  remote : c.remote = none → settings.remote = settings'.remote
  message : c.message = none → settings.message = settings'.message
  pushRefspec : settings.pushRefspec = settings'.pushRefspec
  identityName : settings.identityName = settings'.identityName
  identityEmail : settings.identityEmail = settings'.identityEmail
  environment : settings.environment = settings'.environment

theorem Overridden.sameOrders (h : Overridden c settings settings') :
    SameOrders c c settings settings' where
  line := rfl
  options := by
    have hor {given first second : Option String} (heq : given = none → first = second) :
        given.or first = given.or second := by
      cases given with
      | some value => rfl
      | none => rw [heq rfl]
    simp only [Options.ofCommandLine, hor h.testCommand, hor h.reference, hor h.remote,
      hor h.message, h.pushRefspec]
  identityName := h.identityName
  identityEmail := h.identityEmail
  environment := h.environment

/-- A test command is given the variables of the settings and nothing else of them. -/
theorem measure_congr (h : settings.environment = settings'.environment) (command : String)
    (directory : Path) :
    measure sys command directory settings = measure sys command directory settings' := by
  unfold measure
  rw [h]

/-- A reference is committed under the identity of the settings, which give nothing else to it. -/
theorem publish_congr (hname : settings.identityName = settings'.identityName)
    (hemail : settings.identityEmail = settings'.identityEmail) (options : Options)
    (project file : Path) :
    publish sys c options settings project file =
      publish sys c options settings' project file := by
  have hchoose (repository : Repository) :
      Identity.choose sys repository settings = Identity.choose sys repository settings' := by
    funext state
    unfold Identity.choose
    congr 2
    funext source
    cases source with
    | settings => simp only [Identity.ofSource?, hname, hemail]
    | author | committer | repository | fallback => rfl
  simp only [publish, commitReference, hchoose]

theorem proceed_congr (h : SameOrders c c' settings settings') (reference current : Snapshot) :
    proceed sys c' ⟨project, settings', reference, current⟩ =
      proceed sys c ⟨project, settings, reference, current⟩ := by
  have hsettle (options : Options) (file : Path) (verdict : Verdict) :
      settle sys c' options settings' project file current verdict =
        settle sys c options settings project file current verdict := by
    rw [h.line]
    cases verdict with
    | worse => rfl
    | better =>
      simp only [settle, publish_congr h.identityName h.identityEmail]
      rfl
    | same => rfl
  unfold proceed
  simp only [ratchet, hsettle, ← h.options]
  rw [h.line]
  rfl

/-- What a run does once it has its settings. -/
def withSettings (sys : System σ) (c : CommandLine) (project : Path) (settings : Settings) :
    Run σ Outcome := do
  log .run .debug ("Project directory: '" ++ project.display ++ "'")
  let options := Options.ofCommandLine c settings
  let reference ← loadReference sys (options.referenceFile project) c.writeNewRef
  let current ← measure sys options.testCommand project settings
  proceed sys c ⟨project, settings, reference, current⟩

theorem execute_eq_withSettings (sys : System σ) (c : CommandLine) :
    execute sys c = (do
      let project ← projectDirectory sys c
      let settings ← loadSettings sys project
      withSettings sys c project settings) :=
  rfl

/-- A run with settings goes by its orders only. -/
theorem withSettings_congr (h : SameOrders c c' settings settings') :
    withSettings sys c' project settings' = withSettings sys c project settings := by
  have hwrite : c'.writeNewRef = c.writeNewRef := by
    rw [h.line]
    rfl
  unfold withSettings
  simp only [← h.options, ← measure_congr h.environment, hwrite, proceed_congr h]

/-- All events but the entries in the log that are about the settings file. Of a process only the
end counts: what the tests have written is shown by events of its own, and a run does not read what
git has written. -/
def beyondSettings? : Event → Option Event
  | .logged entry => if entry.component = .settings then none else some (.logged entry)
  | .started invocation result =>
    some (.started invocation ((ending result).map fun status => ⟨status, [], []⟩))
  | event => some event

theorem ignoresOutput_beyondSettings : IgnoresOutput beyondSettings? := by
  intro invocation result other hending
  simp only [beyondSettings?, hending]

/-- Once its tests have run, a run cannot tell related states apart, and what it does keeps them
related. -/
structure Indifferent (sys : System σ) (c : CommandLine) (R : σ → σ → Prop) (project file : Path)
    (settings : Settings) : Prop where
  repository : SameRepository sys R project file settings (Options.ofCommandLine c settings)
  time : Agrees R sys.time
  parentExists : ∀ directory, file.parent? = some directory → Agrees R (sys.pathExists directory)
  createParent : ∀ directory, file.parent? = some directory →
    Respects R (sys.createDirectories directory)
  writeReference : ∀ content, Respects R (sys.writeFile file content)
  writeReport : ∀ name, c.report = some name → ∀ content,
    Respects R (sys.writeFile (.ofText name) content)

namespace Indifferent

theorem updates (h : Indifferent sys c R project file settings) (current : Snapshot)
    (dryRun : Bool) : Lockstep beyondSettings? R (updateReference sys current file dryRun) :=
  .updateReference (.createParent h.parentExists h.createParent) h.writeReference current dryRun

theorem summarizes (h : Indifferent sys c R project file settings) (current : Snapshot)
    (comparison : Option Comparison) :
    Lockstep beyondSettings? R (summarize sys c current comparison) :=
  .summarize h.time h.writeReport current comparison

theorem settles (h : Indifferent sys c R project file settings) (current : Snapshot)
    (verdict : Verdict) :
    Lockstep beyondSettings? R
      (settle sys c (Options.ofCommandLine c settings) settings project file current verdict) := by
  cases verdict with
  | worse => exact .bind (.log _ _ _) fun _ => .pure _
  | better =>
    refine .bind (.log _ _ _) fun _ => .bind (h.updates current _) fun _ => ?_
    exact .bind (h.repository.publish ignoresOutput_beyondSettings) fun _ => .pure _
  | same => exact .bind (.log _ _ _) fun _ => .pure _

theorem proceeds (h : Indifferent sys c R project file settings)
    (hfile : (Options.ofCommandLine c settings).referenceFile project = file)
    (reference current : Snapshot) :
    Lockstep beyondSettings? R (proceed sys c ⟨project, settings, reference, current⟩) := by
  unfold proceed
  dsimp only
  rw [hfile]
  split
  · refine .bind (.log _ _ _) fun _ => .bind (h.updates current _) fun _ => ?_
    exact .bind (h.summarizes current none) fun _ => .pure _
  · refine .bind (.forM fun _ => .record _) fun _ => .bind (h.settles current _) fun _ => ?_
    exact .bind (h.summarizes current _) fun _ => .pure _

end Indifferent

/-- Two states that differ in the settings of a project only, as far as a run can tell. Where the
project is found, both hold settings that can be read. Up to the tests a run asks the same in both
states. The reference is read alike, so that it is not the file of the settings. -/
structure SettingsDiffer (sys : System σ) (c : CommandLine) (file : Path) (R : σ → σ → Prop)
    (s t : σ) (settings settings' : Settings) : Prop where
  getVariable : ∀ name, sys.getVariable name s = sys.getVariable name t
  workingDirectory : sys.workingDirectory s = sys.workingDirectory t
  isDirectory : ∀ path, sys.isDirectory path s = sys.isDirectory path t
  loads : ∀ project, ((projectDirectory sys c).onState s).1 = .ok project →
    ((loadSettings sys project).onState s).1 = .ok settings ∧
      ((loadSettings sys project).onState t).1 = .ok settings'
  resolves : ∀ project, ((projectDirectory sys c).onState s).1 = .ok project →
    (Options.ofCommandLine c settings).referenceFile project = file
  referenceExists : sys.pathExists file s = sys.pathExists file t
  readReference : sys.readFile file s = sys.readFile file t
  startTest : ∀ invocation, IsTest sys c s invocation → RespectsAt R (sys.start invocation) s t
  related : R s t
  indifferent : ∀ project, ((projectDirectory sys c).onState s).1 = .ok project →
    Indifferent sys c R project file settings

namespace SettingsDiffer

theorem locates (h : SettingsDiffer sys c file R s t settings settings') :
    ((projectDirectory sys c).onState s).1 = ((projectDirectory sys c).onState t).1 := by
  have hlocates : Lockstep some (Just s t) (projectDirectory sys c) :=
    .projectDirectory (fun name => agrees_just (h.getVariable name))
      (agrees_just h.workingDirectory) fun path => agrees_just (h.isDirectory path)
  exact hlocates.onState ⟨rfl, rfl⟩

/-- Once it has its settings, a run takes the same steps from both states. -/
theorem takes_same_steps (h : SettingsDiffer sys c file R s t settings settings')
    (hproject : ((projectDirectory sys c).onState s).1 = .ok project) :
    Abreast beyondSettings? R (withSettings sys c project settings) s t := by
  have hfile := h.resolves project hproject
  unfold withSettings
  dsimp only
  rw [hfile]
  refine .pass (.log _ _ _) h.related fun _ _ => ?_
  refine .pass (.loadReference (agrees_just h.referenceExists) (agrees_just h.readReference) _)
    h.related fun reference _ => ?_
  have hmeasure : Abreast beyondSettings? R
      (measure sys (Options.ofCommandLine c settings).testCommand project settings) s t := by
    refine .measure (.runTestCommand h.related fun program arguments hwords => ?_)
    have hfinds : Finds sys c s project settings := ⟨hproject, (h.loads project hproject).1⟩
    exact h.startTest _ ⟨project, settings, program, arguments, hfinds, hwords, rfl⟩
  exact hmeasure.bind fun current => (h.indifferent project hproject).proceeds hfile _ current

end SettingsDiffer

/-- Two runs with the same result that show and do the same and end in related states, except for
what they say about their settings files. -/
structure SameRun (sys : System σ) (R : σ → σ → Prop) (c c' : CommandLine) (s t : σ) : Prop where
  result : ((execute sys c).onState s).1 = ((execute sys c').onState t).1
  state : R ((execute sys c).onState s).2.state ((execute sys c').onState t).2.state
  events : ((execute sys c).onState s).2.events.filterMap beyondSettings? =
    ((execute sys c').onState t).2.events.filterMap beyondSettings?

theorem sameRun_of_tells {result : Except RunError Outcome} {told : List Event} {u v : σ}
    (hs : Tells beyondSettings? (execute sys c) s result told u)
    (ht : Tells beyondSettings? (execute sys c') t result told v) (huv : R u v) :
    SameRun sys R c c' s t := by
  obtain ⟨hresult, hstate, hevents⟩ := hs.onState
  obtain ⟨hresult', hstate', hevents'⟩ := ht.onState
  refine ⟨hresult.trans hresult'.symm, ?_, hevents.trans hevents'.symm⟩
  rw [hstate, hstate']
  exact huv

/-- Runs that ask for the same are the same, whatever part of it the settings hold. -/
theorem SettingsDiffer.sameRun (h : SettingsDiffer sys c file R s t settings settings')
    (horders : SameOrders c c' settings settings') : SameRun sys R c c' s t := by
  have hplace : projectDirectory sys c' = projectDirectory sys c := by
    rw [horders.line]
    rfl
  have hlocate (u : σ) {answer : Except RunError Path}
      (hu : ((projectDirectory sys c).onState u).1 = answer) :
      Tells beyondSettings? (projectDirectory sys c) u answer [] u :=
    mute_projectDirectory.tells_of_does (hu ▸ (keeps_projectDirectory sys c).does u)
  have hload (project : Path) (u : σ) {answer : Except RunError Settings}
      (hu : ((loadSettings sys project).onState u).1 = answer) :
      Tells beyondSettings? (loadSettings sys project) u answer [] u :=
    (mute_loadSettings_of (fun entry hentry => by simp [beyondSettings?, hentry])
      project).tells_of_does (hu ▸ (keeps_loadSettings sys project).does u)
  have hsame := h.locates
  rcases hproject : ((projectDirectory sys c).onState s).1 with e | project
  · have hs : Tells beyondSettings? (execute sys c) s (.error e) [] s :=
      (hlocate s hproject).bind_error
    have ht : Tells beyondSettings? (execute sys c') t (.error e) [] t := by
      rw [execute_eq_withSettings, hplace]
      exact (hlocate t (hsame.symm.trans hproject)).bind_error
    exact sameRun_of_tells hs ht h.related
  · obtain ⟨hloaded, hloaded'⟩ := h.loads project hproject
    obtain ⟨result, told, u, v, hu, hv, huv⟩ := h.takes_same_steps hproject
    have hs : Tells beyondSettings? (execute sys c) s result told u :=
      (hlocate s hproject).then ((hload project s hloaded).then hu)
    have ht : Tells beyondSettings? (execute sys c') t result told v := by
      rw [execute_eq_withSettings, hplace]
      refine (hlocate t (hsame.symm.trans hproject)).then ((hload project t hloaded').then ?_)
      rw [withSettings_congr horders]
      exact hv
    exact sameRun_of_tells hs ht huv

/-- Once its tests have run on a checkout, a run cannot tell what a file holds that is not its
reference. -/
theorem indifferent_checkout {path relative : Path}
    (hbelow : file.below? Checkout.work = some relative) (hother : Elsewhere path relative) :
    Indifferent Checkout.system c (Edited path) project file settings where
  repository := sameRepository_checkout hbelow hother project settings _
  time _ _ h := congrArg Timestamp.text h.disk.1.seconds
  parentExists directory _ _ _ h := h.disk.exists_eq directory
  createParent directory _ _ _ h := h.onDisk rfl (h.disk.createDirectories directory)
  writeReference content _ _ h := h.onDisk rfl (h.disk.write file content)
  writeReport name _ content _ _ h := h.onDisk rfl (h.disk.write (.ofText name) content)

/-- Settings that name all options and the branch to push. -/
def fullTable : Toml.Table :=
  [("message", .string "Raise the reference"), ("push_refspec", .string "main"),
    ("reference", .string "ci.csv"), ("remote", .string "upstream"),
    ("test_command", .string "cat out")]

def fullSettings : Settings :=
  { Settings.empty with
    testCommand := some "cat out"
    reference := some "ci.csv"
    remote := some "upstream"
    message := some "Raise the reference"
    pushRefspec := some "main" }

def fullText : String :=
  "message = \"Raise the reference\"\npush_refspec = \"main\"\nreference = \"ci.csv\"\n" ++
    "remote = \"upstream\"\ntest_command = \"cat out\"\n"

/-- A checkout with a reference and with settings, of which the last commit holds those that name
all options. -/
def configuredCheckout (settings : String) : Checkout where
  disk :=
    { sampleDisk "" "ok a 1s coverage: 60% of statements\n" with
      files := [(.ofText "project/covref.toml", .ok (utf8 settings)),
        (.ofText "project/ci.csv", .ok (utf8 "a;50.0\n"))] }
  head := [(.ofText "covref.toml", utf8 fullText), (.ofText "ci.csv", utf8 "a;50.0\n")]
  commits := []
  remotes := [utf8 "upstream", utf8 "mirror"]
  pushes := []

theorem edited_configuredCheckout (text text' : String) :
    Edited (.ofText "covref.toml") (configuredCheckout text) (configuredCheckout text') where
  disk := by
    have hplace : Checkout.work.join (.ofText "covref.toml") = .ofText "project/covref.toml" := by
      decide +kernel
    rw [hplace]
    refine ⟨⟨rfl, rfl, rfl, fun path hpath => ?_, rfl, rfl⟩, ?_⟩
    · have hne : (path == Path.ofText "project/covref.toml") = false :=
        beq_eq_false_iff_ne.mpr hpath
      simp only [configuredCheckout, List.lookup_cons, hne]
    · simp only [configuredCheckout, Disk.exists?, List.lookup_cons, beq_self_eq_true]
      rfl
  head _ _ := rfl
  commits := rfl
  remotes := rfl
  pushes := rfl

/-- Removing the options from the settings file of a checkout makes a difference in the settings
only, for a run whose tests are not carried out by git. -/
theorem settingsDiffer_configuredCheckout (words : String × List String)
    (hproject : ((projectDirectory Checkout.system c).onState (configuredCheckout fullText)).1 =
      .ok (.ofText "project"))
    (hreference : (Options.ofCommandLine c fullSettings).reference = "ci.csv")
    (hwords : commandWords (Options.ofCommandLine c fullSettings).testCommand = .ok words)
    (hprogram : utf8 words.1 ≠ utf8 "git") :
    SettingsDiffer Checkout.system c (.ofText "project/ci.csv") (Edited (.ofText "covref.toml"))
      (configuredCheckout fullText) (configuredCheckout "push_refspec = \"main\"\n") fullSettings
      fullSettings.withoutOptions := by
  have hfound {project : Path}
      (h : ((projectDirectory Checkout.system c).onState (configuredCheckout fullText)).1 =
        .ok project) : Path.ofText "project" = project := Except.ok.inj (hproject.symm.trans h)
  have hloaded : ((loadSettings Checkout.system (.ofText "project")).onState
      (configuredCheckout fullText)).1 = .ok fullSettings := by
    decide +kernel
  have hedited := edited_configuredCheckout fullText "push_refspec = \"main\"\n"
  refine ⟨fun _ => rfl, rfl, fun _ => rfl, fun project h => ?_, fun project h => ?_,
    by decide +kernel, by decide +kernel, ?_, hedited, fun project h => ?_⟩
  · obtain rfl := hfound h
    exact ⟨hloaded, by decide +kernel⟩
  · obtain rfl := hfound h
    rw [Options.referenceFile, hreference]
    decide +kernel
  · rintro _ ⟨project, settings, program, arguments, ⟨hlocated, hfinds⟩, hcommand, rfl⟩
    obtain rfl := hfound hlocated
    obtain rfl : fullSettings = settings := Except.ok.inj (hloaded.symm.trans hfinds)
    obtain rfl : words = (program, arguments) := Except.ok.inj (hwords.symm.trans hcommand)
    exact hedited.start hprogram
  · have hbelow : (Path.ofText "project/ci.csv").below? Checkout.work =
        some (.ofText "ci.csv") := by
      decide +kernel
    exact indifferent_checkout hbelow ⟨by decide +kernel, by decide +kernel⟩

/-- Settings give way to the command line. From two states that differ in their settings only, runs
are the same when the one command line gives itself what the other one leaves to the settings, and
these are otherwise the same, as they are when the options are removed from the settings file. And
they are the same for one command line when the settings differ only in options that it gives
itself, each of the four independently of the others. -/
theorem settings_precedence (h : SettingsDiffer sys c file R s t settings settings') :
    (settings' = settings.withoutOptions → SameRun sys R c (c.filled settings) s t) ∧
      (∀ table, Settings.ofTable table = .ok settings →
        Settings.ofTable (Settings.removeOptions table) = .ok settings' →
        SameRun sys R c (c.filled settings) s t) ∧
      (Overridden c settings settings' → SameRun sys R c c s t) := by
  refine ⟨?_, fun table htable htable' => ?_, fun hoverridden => h.sameRun hoverridden.sameOrders⟩
  · rintro rfl
    exact h.sameRun (sameOrders_filled c settings)
  · rw [Settings.ofTable_removeOptions htable] at htable'
    cases htable'
    exact h.sameRun (sameOrders_filled c settings)

/-- The file of the settings is committed, and its status is not the same on both checkouts. -/
theorem settings_precedence_sample :
    let d := configuredCheckout fullText
    let e := configuredCheckout "push_refspec = \"main\"\n"
    let settings' := fullSettings.withoutOptions
    let R := Edited (.ofText "covref.toml")
    let file := Path.ofText "project/ci.csv"
    let line := { plainLine with push := true }
    let overriding := line.withOptions (some "cat") (some "ci.csv") (some "mirror") (some "Better")
    let left (c : CommandLine) := ((execute Checkout.system c).onState d).2.state
    d.status? (.ofText "covref.toml") ≠ e.status? (.ofText "covref.toml") ∧
    (SettingsDiffer Checkout.system line file R d e fullSettings settings' ∧
      Settings.ofTable fullTable = .ok fullSettings ∧
      Settings.ofTable (Settings.removeOptions fullTable) = .ok settings' ∧
      SameRun Checkout.system R line (line.filled fullSettings) d e ∧
      (left line).commits = [(utf8 "Raise the reference", .ofText "ci.csv")] ∧
      (left line).pushes = [(utf8 "upstream", utf8 "main")]) ∧
    (SettingsDiffer Checkout.system overriding file R d e fullSettings settings' ∧
      Overridden overriding fullSettings settings' ∧
      SameRun Checkout.system R overriding overriding d e ∧
      (left overriding).commits = [(utf8 "Better", .ofText "ci.csv")] ∧
      (left overriding).pushes = [(utf8 "mirror", utf8 "main")]) := by
  intro d e settings' R file line overriding left
  have hline : SettingsDiffer Checkout.system line file R d e fullSettings settings' :=
    settingsDiffer_configuredCheckout ("cat", ["out"]) rfl rfl (by decide +kernel)
      (by decide +kernel)
  have hoverriding : SettingsDiffer Checkout.system overriding file R d e fullSettings settings' :=
    settingsDiffer_configuredCheckout ("cat", []) rfl rfl (by decide +kernel) (by decide +kernel)
  have htable : Settings.ofTable fullTable = .ok fullSettings := by decide +kernel
  have htable' : Settings.ofTable (Settings.removeOptions fullTable) = .ok settings' := by
    decide +kernel
  have hgiven : Overridden overriding fullSettings settings' := by
    constructor <;> decide
  have hleft : (left line).commits = [(utf8 "Raise the reference", .ofText "ci.csv")] ∧
      (left line).pushes = [(utf8 "upstream", utf8 "main")] := by
    decide +kernel
  have hleft' : (left overriding).commits = [(utf8 "Better", .ofText "ci.csv")] ∧
      (left overriding).pushes = [(utf8 "mirror", utf8 "main")] := by
    decide +kernel
  exact ⟨by decide +kernel,
    ⟨hline, htable, htable', (settings_precedence hline).2.1 fullTable htable htable', hleft⟩,
    ⟨hoverriding, hgiven, (settings_precedence hoverriding).2.2 hgiven, hleft'⟩⟩

end Run

end CoverageRatchet
