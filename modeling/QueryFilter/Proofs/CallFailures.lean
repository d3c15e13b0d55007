import QueryFilter.Cli.Run

set_option relaxedAutoImplicit false
set_option autoImplicit false

/-!
# How calls fail

A call can go wrong in three places, and they come in a fixed order: the arguments, the settings, and
the command itself. Wrong settings end every call that names a command, also one that does not use
them, and no fault of the command is looked at before them.

## Main definitions

* `QueryFilter.Settings.FileFails` — a file of settings fails with an error.
* `QueryFilter.Cli.SettingsFail` — the settings of a call fail with an error: the file that is named
  does, or else the overrides of the environment do.
* `QueryFilter.Cli.Command.Fails` — a command fails when its turn comes.

## Main results

* `QueryFilter.Settings.ofFile_eq_error_iff` — the errors of a file of settings.
* `QueryFilter.Cli.loadSettings_eq_error_iff` — the errors of loading the settings.
* `QueryFilter.Cli.perform_eq_error_iff` — the failures of commands, the same under all settings.
* `QueryFilter.Cli.run_eq_failure_of_settingsFail`, `QueryFilter.Cli.run_eq_failure_iff_fails` — the
  failures of calls.
* `QueryFilter.Cli.failures_in_order` — what each exit code says about the call.
-/

namespace QueryFilter

/-! ## Files of settings -/

namespace Settings

/-- The contents of a file give settings, which are valid. -/
inductive FileGives : Option ByteArray → Settings → Prop where
  | intro (bytes : ByteArray) (source : String) (settings : Settings)
      (htext : String.fromUTF8? bytes = some source)
      (hsource : Json.decode? read? source = some settings) (hvalid : settings.IsValid) :
      FileGives (some bytes) settings

/-- The contents of a file fail to give settings, with an error. Every constructor says that what comes
before it is right. -/
inductive FileFails : Option ByteArray → Error → Prop where
  /-- The file cannot be opened. -/
  | missing : FileFails none (.unreadable .missing)
  /-- It does not hold text. -/
  | notText (bytes : ByteArray) (htext : String.fromUTF8? bytes = none) :
      FileFails (some bytes) (.unreadable .notText)
  /-- No settings can be decoded from its text. -/
  | malformed (bytes : ByteArray) (source : String) (htext : String.fromUTF8? bytes = some source)
      (hsource : Json.decode? read? source = none) :
      FileFails (some bytes) (.malformed (decodeFault source))
  /-- Its settings are not valid. -/
  | invalid (bytes : ByteArray) (source : String) (settings : Settings) (error : Error)
      (htext : String.fromUTF8? bytes = some source)
      (hsource : Json.decode? read? source = some settings)
      (herror : settings.validate = .error error) :
      FileFails (some bytes) error

section OfFile

variable {contents : Option ByteArray}

/-- The settings of a file are those that its contents give. -/
theorem ofFile_eq_ok_iff {settings : Settings} :
    ofFile contents = .ok settings ↔ FileGives contents settings := by
  constructor
  · intro h
    cases htext : fileText contents with
    | error fault =>
      simp only [ofFile, htext] at h
      cases h
    | ok source =>
      obtain ⟨bytes, rfl, hbytes⟩ := fileText_eq_ok_iff.1 htext
      simp only [ofFile, htext, ofJson] at h
      cases hsource : Json.decode? read? source with
      | none =>
        simp only [hsource] at h
        cases h
      | some given =>
        simp only [hsource] at h
        obtain ⟨hvalid, rfl⟩ := validate_eq_ok_iff.1 h
        exact .intro bytes source _ hbytes hsource hvalid
  · rintro ⟨bytes, source, settings, hbytes, hsource, hvalid⟩
    simp only [ofFile, fileText_eq_ok_iff.2 ⟨bytes, rfl, hbytes⟩, ofJson, hsource]
    exact validate_eq_ok_iff.2 ⟨hvalid, rfl⟩

/-- **The errors of a file of settings.** -/
theorem ofFile_eq_error_iff {error : Error} :
    ofFile contents = .error error ↔ FileFails contents error := by
  constructor
  · intro h
    cases htext : fileText contents with
    | error fault =>
      simp only [ofFile, htext] at h
      cases h
      rcases fileText_eq_error_iff.1 htext with ⟨rfl, rfl⟩ | ⟨bytes, rfl, hbytes, rfl⟩
      · exact .missing
      · exact .notText bytes hbytes
    | ok source =>
      obtain ⟨bytes, rfl, hbytes⟩ := fileText_eq_ok_iff.1 htext
      simp only [ofFile, htext, ofJson] at h
      cases hsource : Json.decode? read? source with
      | none =>
        simp only [hsource] at h
        cases h
        exact .malformed bytes source hbytes hsource
      | some settings =>
        simp only [hsource] at h
        exact .invalid bytes source settings error hbytes hsource h
  · intro h
    cases h with
    | missing => rfl
    | notText bytes hbytes =>
      simp only [ofFile, fileText_eq_error_iff.2 (.inr ⟨bytes, rfl, hbytes, rfl⟩)]
    | malformed bytes source hbytes hsource =>
      simp only [ofFile, fileText_eq_ok_iff.2 ⟨bytes, rfl, hbytes⟩, ofJson, hsource]
    | invalid bytes source settings _ hbytes hsource herror =>
      simp only [ofFile, fileText_eq_ok_iff.2 ⟨bytes, rfl, hbytes⟩, ofJson, hsource, herror]

end OfFile

end Settings

namespace Cli

variable {world : World} {arguments : List String} {config : Option String} {command : Command}

/-! ## Settings -/

/-- The settings before the overrides: those of the file if one is named. -/
def fileSettings (world : World) (config : Option String) : Except Error Settings :=
  match config with
  | none => .ok .default
  | some path => Settings.ofFile (world.file path)

/-- What the environment overrides. -/
def overrides (world : World) : Settings.Overrides :=
  ⟨world.environment Settings.rowsVariable, world.environment Settings.firstVariable⟩

/-- What is given before the overrides: the settings of the file that is named, or else the default
ones. -/
inductive BaseSettings (world : World) : Option String → Settings → Prop where
  | default : BaseSettings world none .default
  | file (path : String) (settings : Settings) (h : Settings.FileGives (world.file path) settings) :
      BaseSettings world (some path) settings

/-- The settings of a call fail with an error. -/
inductive SettingsFail (world : World) (config : Option String) (error : Error) : Prop where
  /-- The file that is named fails with it. -/
  | file (path : String) (hconfig : config = some path)
      (herror : Settings.FileFails (world.file path) error)
  /-- The settings before the overrides are right, and the overrides cannot be applied to them. -/
  | environment (settings : Settings) (hsettings : BaseSettings world config settings)
      (herror : settings.withOverrides (overrides world) = .error error)

/-- The settings are those before the overrides, overridden. -/
theorem loadSettings_eq (world : World) (config : Option String) :
    loadSettings world config
      = fileSettings world config >>= fun settings => settings.withOverrides (overrides world) := by
  cases config with
  | none => rfl
  | some path => rfl

/-- The settings before the overrides are those that are given. -/
theorem fileSettings_eq_ok_iff {settings : Settings} :
    fileSettings world config = .ok settings ↔ BaseSettings world config settings := by
  cases config with
  | none =>
    constructor
    · intro h
      cases h
      exact .default
    · rintro ⟨⟩
      rfl
  | some path =>
    rw [fileSettings, Settings.ofFile_eq_ok_iff]
    constructor
    · exact .file path settings
    · rintro ⟨⟩
      assumption

/-- A named file fails with its own error. -/
theorem fileSettings_eq_error_iff {error : Error} :
    fileSettings world config = .error error
      ↔ ∃ path, config = some path ∧ Settings.FileFails (world.file path) error := by
  cases config with
  | none => simp [fileSettings]
  | some path => simp [fileSettings, Settings.ofFile_eq_error_iff]

/-- **The errors of loading the settings**: those of the file that is named, and if there are none,
those of the overrides. -/
theorem loadSettings_eq_error_iff {error : Error} :
    loadSettings world config = .error error ↔ SettingsFail world config error := by
  rw [loadSettings_eq]
  constructor
  · intro h
    cases hfile : fileSettings world config with
    | error fault =>
      rw [hfile] at h
      cases h
      obtain ⟨path, hconfig, herror⟩ := fileSettings_eq_error_iff.1 hfile
      exact .file path hconfig herror
    | ok settings =>
      rw [hfile] at h
      exact .environment settings (fileSettings_eq_ok_iff.1 hfile) h
  · rintro (⟨path, hconfig, herror⟩ | ⟨settings, hsettings, herror⟩)
    · rw [fileSettings_eq_error_iff.2 ⟨path, hconfig, herror⟩]
      rfl
    · rw [fileSettings_eq_ok_iff.2 hsettings]
      exact herror

/-! ## Commands -/

/-- A command fails when its turn comes. Only two commands can: one that sets a keyword, and one that
reads a saved filter. -/
inductive Command.Fails (world : World) : Command → Failure → Prop where
  /-- The relation to set is none of the markers. -/
  | relation (filter keyword value relation : String)
      (hrelation : relation ∉ Relation.all.map Relation.render) :
      Fails world (.set filter keyword value relation) (.filter (.unknownRelation relation))
  /-- The file of the saved filter cannot be opened. -/
  | missing (path : String) (hfile : world.file path = none) :
      Fails world (.fromRecord path) (.unreadable .missing)
  /-- The file does not hold text. -/
  | notText (path : String) (bytes : ByteArray) (hfile : world.file path = some bytes)
      (htext : String.fromUTF8? bytes = none) :
      Fails world (.fromRecord path) (.unreadable .notText)
  /-- The text of the file saves no filter. -/
  | record (path : String) (bytes : ByteArray) (source : String) (error : Error)
      (hfile : world.file path = some bytes) (htext : String.fromUTF8? bytes = some source)
      (herror : Filter.ofJson source = .error error) :
      Fails world (.fromRecord path) (.filter error)

/-- Reading a saved filter fails because of its file, or because of what the file says. -/
theorem readRecord_eq_error_iff {path : String} {failure : Failure} :
    readRecord world path = .error failure ↔ (Command.fromRecord path).Fails world failure := by
  rw [readRecord]
  constructor
  · intro h
    cases htext : fileText (world.file path) with
    | error fault =>
      rw [htext] at h
      cases h
      rcases fileText_eq_error_iff.1 htext with ⟨hfile, rfl⟩ | ⟨bytes, hfile, hbytes, rfl⟩
      · exact .missing path hfile
      · exact .notText path bytes hfile hbytes
    | ok source =>
      obtain ⟨bytes, hfile, hbytes⟩ := fileText_eq_ok_iff.1 htext
      cases hfilter : Filter.ofJson source with
      | ok filter =>
        simp only [htext, hfilter] at h
        cases h
      | error error =>
        simp only [htext, hfilter] at h
        cases h
        exact .record path bytes source error hfile hbytes hfilter
  · intro h
    cases h with
    | missing _ hfile => rw [fileText_eq_error_iff.2 (.inl ⟨hfile, rfl⟩)]
    | notText _ bytes hfile hbytes =>
      rw [fileText_eq_error_iff.2 (.inr ⟨bytes, hfile, hbytes, rfl⟩)]
    | record _ bytes source error hfile hbytes herror =>
      simp only [fileText_eq_ok_iff.2 ⟨bytes, hfile, hbytes⟩, herror]
      rfl

/-- **The failures of commands**, whatever the settings. -/
theorem perform_eq_error_iff (settings : Settings) {failure : Failure} :
    perform world settings command = .error failure ↔ command.Fails world failure := by
  cases command with
  | set filter keyword value relation =>
    rw [perform]
    constructor
    · intro h
      cases hparse : Relation.parse relation with
      | ok parsed =>
        rw [hparse] at h
        contradiction
      | error error =>
        rw [hparse] at h
        cases h
        obtain ⟨hrelation, rfl⟩ := Relation.parse_eq_error_iff.1 hparse
        exact .relation filter keyword value relation hrelation
    · rintro ⟨_, _, _, _, hrelation⟩
      rw [Relation.parse_eq_error_iff.2 ⟨hrelation, rfl⟩]
  | fromRecord path =>
    rw [perform, ← readRecord_eq_error_iff]
    cases readRecord world path with
    | ok filter => simp [Except.map]
    | error failure => simp [Except.map]
  | terms filter json =>
    cases json with
    | true => exact ⟨nofun, nofun⟩
    | false => exact ⟨nofun, nofun⟩
  | _ => exact ⟨nofun, nofun⟩

/-! ## Exit codes -/

namespace Outcome

/-- The exit code of a failure is one. -/
theorem exitCode_eq_one_iff (outcome : Outcome) :
    outcome.exitCode = 1 ↔ ∃ failure, outcome = .failure failure := by
  cases outcome with
  | success output => simp [exitCode]
  | failure failure => simp [exitCode]
  | misuse => simp [exitCode]

/-- The exit code of arguments that are not understood is two. -/
theorem exitCode_eq_two_iff (outcome : Outcome) : outcome.exitCode = 2 ↔ outcome = .misuse := by
  cases outcome with
  | success output => simp [exitCode]
  | failure failure => simp [exitCode]
  | misuse => simp [exitCode]

/-- Nothing is printed with any exit code but zero. -/
theorem output_eq_empty {outcome : Outcome} (h : outcome.exitCode ≠ 0) : outcome.output = "" := by
  cases outcome with
  | success output => exact absurd rfl h
  | failure failure => rfl
  | misuse => rfl

end Outcome

/-! ## Calls -/

/-- A call that names a command fails with the error of its settings, if there is one. -/
theorem run_eq_failure_of_settingsFail
    (hcommand : Request.ofArguments arguments = .run config command) {error : Error}
    (h : SettingsFail world config error) : run world arguments = .failure (.filter error) := by
  have hload : loadSettings world config = .error error := loadSettings_eq_error_iff.2 h
  simp only [run, hcommand, runCommand, hload]
  rfl

/-- A call with the right settings fails as its command does. -/
theorem run_eq_failure_iff_fails
    (hcommand : Request.ofArguments arguments = .run config command)
    (h : ∀ error, ¬ SettingsFail world config error) {failure : Failure} :
    run world arguments = .failure failure ↔ command.Fails world failure := by
  cases hload : loadSettings world config with
  | error error => exact absurd (loadSettings_eq_error_iff.1 hload) (h error)
  | ok settings =>
    have hrun : runCommand world config command = perform world settings command := by
      rw [runCommand, hload]
      rfl
    simp only [run, hcommand, hrun]
    rw [← perform_eq_error_iff settings]
    cases perform world settings command with
    | ok output => exact ⟨nofun, nofun⟩
    | error found => simp

/-- Whether the arguments of a call are understood depends on nothing else. -/
theorem run_eq_misuse_iff : run world arguments = .misuse ↔ Request.ofArguments arguments = .misuse := by
  cases hrequest : Request.ofArguments arguments with
  | version => simp [run, hrequest]
  | help => simp [run, hrequest]
  | misuse => simp [run, hrequest]
  | run config command =>
    simp only [run, hrequest]
    cases runCommand world config command with
    | ok output => simp
    | error failure => simp

/-- Only calls that name a command fail. -/
theorem exists_command_of_run_eq_failure {failure : Failure}
    (h : run world arguments = .failure failure) :
    ∃ config command, Request.ofArguments arguments = .run config command := by
  cases hrequest : Request.ofArguments arguments with
  | version => simp [run, hrequest] at h
  | help => simp [run, hrequest] at h
  | misuse => simp [run, hrequest] at h
  | run config command => exact ⟨config, command, rfl⟩

/-- **The order in which calls fail.** With an exit code other than zero nothing is printed. The code
is two when the arguments are not understood, whatever the files and the environment are, and one
only for arguments that name a command. For these, wrong settings come first: the call fails with
their error, whichever command it is and whatever else is wrong with it. With the right settings the
call fails exactly when the command does, and in the same way: setting a keyword with a relation that
is none of the markers, or reading a saved filter from a file that cannot be read or saves none. -/
theorem failures_in_order (world : World) (arguments : List String) :
    ((run world arguments).exitCode ≠ 0 → (run world arguments).output = "") ∧
    ((run world arguments).exitCode = 2 ↔ Request.ofArguments arguments = .misuse) ∧
    ((run world arguments).exitCode = 1 →
      ∃ config command, Request.ofArguments arguments = .run config command) ∧
    ∀ config command, Request.ofArguments arguments = .run config command →
      (∀ error, SettingsFail world config error →
        (run world arguments).exitCode = 1 ∧ run world arguments = .failure (.filter error)) ∧
      ((∀ error, ¬ SettingsFail world config error) →
        ((run world arguments).exitCode = 1 ↔ ∃ failure, command.Fails world failure) ∧
        ∀ failure, run world arguments = .failure failure ↔ command.Fails world failure) := by
  refine ⟨Outcome.output_eq_empty, ?_, ?_, ?_⟩
  · rw [Outcome.exitCode_eq_two_iff, run_eq_misuse_iff]
  · rw [Outcome.exitCode_eq_one_iff]
    rintro ⟨failure, hfailure⟩
    exact exists_command_of_run_eq_failure hfailure
  · intro config command hcommand
    constructor
    · intro error herror
      have hrun := run_eq_failure_of_settingsFail hcommand herror
      rw [hrun]
      exact ⟨rfl, rfl⟩
    · intro hsettings
      have hrun (failure : Failure) :
          run world arguments = .failure failure ↔ command.Fails world failure :=
        run_eq_failure_iff_fails hcommand hsettings
      refine ⟨?_, hrun⟩
      simp only [Outcome.exitCode_eq_one_iff, hrun]

/-- A call that reads a saved filter from a text that is not JSON. It fails because of the record when
all settings are right. Before that it fails because of a settings file that cannot be opened, because
of one with the same text, which is then a fault of the settings, and because of a variable of the
environment that makes pages empty. -/
theorem failures_in_order_four :
    let record := ["from-record", "--path", "f.json"]
    let files : String → Option ByteArray := fun path =>
      if path = "f.json" then some "\x7b".toUTF8 else none
    let world : World := ⟨files, fun _ => none⟩
    let small : World :=
      ⟨files, fun name => if name = Settings.rowsVariable then some "0" else none⟩
    let malformed : Error := .malformed (Settings.decodeFault "\x7b")
    let recordError : Error := .malformed (SavedFilter.decodeFault "\x7b")
    (∀ error, ¬ SettingsFail world none error) ∧
      run world record = .failure (.filter recordError) ∧
      SettingsFail world (some "s.json") (.unreadable .missing) ∧
      run world ("--config" :: "s.json" :: record) = .failure (.filter (.unreadable .missing)) ∧
      SettingsFail world (some "f.json") malformed ∧
      run world ("--config" :: "f.json" :: record) = .failure (.filter malformed) ∧
      malformed ≠ recordError ∧
      SettingsFail small none (.invalidSettings (.rowsNotPositive 0)) ∧
      run small record = .failure (.filter (.invalidSettings (.rowsNotPositive 0))) ∧
      (run small record).exitCode ≠ 0 ∧ (run small record).output = "" := by
  intro record files world small malformed recordError
  have hcommand : Request.ofArguments record = .run none (.fromRecord "f.json") := by
    decide +kernel +zetaReduce
  have hmissing : Request.ofArguments ("--config" :: "s.json" :: record)
      = .run (some "s.json") (.fromRecord "f.json") := by
    decide +kernel +zetaReduce
  have hnamed : Request.ofArguments ("--config" :: "f.json" :: record)
      = .run (some "f.json") (.fromRecord "f.json") := by
    decide +kernel +zetaReduce
  have htext : String.fromUTF8? "\x7b".toUTF8 = some "\x7b" := by decide +kernel
  have hright : ∀ error, ¬ SettingsFail world none error := by
    intro error herror
    have hload : loadSettings world none = .ok .default := rfl
    rw [loadSettings_eq_error_iff.2 herror] at hload
    cases hload
  have herror : Filter.ofJson "\x7b" = .error recordError := by
    have hsource : Json.decode? SavedFilter.read? "\x7b" = none := by decide +kernel
    rw [Filter.ofJson, SavedFilter.ofJson, hsource]
    rfl
  have hrecord : run world record = .failure (.filter recordError) :=
    (((failures_in_order world record).2.2.2 _ _ hcommand).2 hright).2 _ |>.2
      (.record "f.json" _ _ _ rfl htext herror)
  have hopen : SettingsFail world (some "s.json") (.unreadable .missing) := .file "s.json" rfl .missing
  have hform : SettingsFail world (some "f.json") malformed :=
    .file "f.json" rfl (.malformed _ _ htext (by decide +kernel))
  have hsmall : SettingsFail small none (.invalidSettings (.rowsNotPositive 0)) :=
    .environment .default .default rfl
  obtain ⟨-, hunopened⟩ := ((failures_in_order world _).2.2.2 _ _ hmissing).1 _ hopen
  obtain ⟨-, hundecoded⟩ := ((failures_in_order world _).2.2.2 _ _ hnamed).1 _ hform
  obtain ⟨-, hwrong⟩ := ((failures_in_order small record).2.2.2 _ _ hcommand).1 _ hsmall
  have hcode : (run small record).exitCode ≠ 0 := by
    rw [hwrong]
    decide
  exact ⟨hright, hrecord, hopen, hunopened, hform, hundecoded, by decide +kernel, hsmall, hwrong, hcode,
    (failures_in_order small record).1 hcode⟩

end Cli

end QueryFilter
