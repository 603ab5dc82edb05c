import TemplHighlight.Command.Run
import TemplHighlight.Proofs.Config.Loading
import TemplHighlight.Proofs.Site.Tasks

/-!
# Configurations that are refused

A configuration that is not valid is refused in words, and a command reports them. Only two kinds of
bytes in a configuration file have no such words: those that are no UTF-8, and those that hold a whole
number of more digits than are read.
-/

namespace TemplHighlight

namespace Config

variable {disk : Disk} {path : Option Text} {environment : Pairs Text} {bytes : Bytes}
  {failure : Failure}

/-- Bytes that no words are found for: they are no text, or a text with a number that is too
long. -/
inductive Illegible (bytes : Bytes) : Failure → Prop where
  | notText (noText : Utf8.decode? bytes = none) : Illegible bytes .undecodable
  | tooLong (text : Text) (isText : Utf8.decode? bytes = some text)
      (huge : Toml.parse text = .error .hugeInteger) : Illegible bytes .hugeInteger

/-- A path has an illegible configuration file. -/
def HasIllegible (disk : Disk) (path : Option Text) (failure : Failure) : Prop :=
  ∃ file bytes, locate disk path = .ok (some file) ∧ disk.read file.toText = .ok bytes ∧
    Illegible bytes failure

/-! ## The file -/

/-- Where there is a file, it can be read. -/
theorem read_of_hasFile {text : Text} (isFile : disk.hasFile text = true) :
    ∃ bytes, disk.read text = .ok bytes := by
  unfold Disk.hasFile at isFile
  split at isFile
  next bytes looked =>
    refine ⟨bytes, ?_⟩
    rw [Disk.read, looked]
    rfl
  next => cases isFile

/-- A configuration file that was found is a file. -/
theorem hasFile_of_locate {file : Path} (located : locate disk path = .ok (some file)) :
    disk.hasFile file.toText = true := by
  have ofFound {start : Option Text} (found : find? disk start = some file) :
      disk.hasFile file.toText = true := by
    unfold find? at found
    extract_lets _ candidate at found
    obtain ⟨isFile, same⟩ := Option.ite_none_right_eq_some.mp found
    exact Option.some.inj same ▸ isFile
  cases path with
  | none => exact ofFound (Except.ok.inj located)
  | some given =>
    rw [locate] at located
    split at located
    next isFile =>
      cases located
      exact isFile
    next =>
      split at located
      next => exact ofFound (Except.ok.inj located)
      next => cases located

/-- Illegible bytes hold no configuration. -/
theorem ofBytes_of_illegible (illegible : Illegible bytes failure) (name : Text) :
    ofBytes name bytes = .error failure := by
  cases illegible with
  | notText noText => rw [ofBytes, noText]
  | tooLong text isText huge =>
    rw [ofBytes, isText]
    simp only [huge]

/-- Bytes that hold no configuration are illegible, or are refused in words. -/
theorem illegible_of_ofBytes {name : Text} (failed : ofBytes name bytes = .error failure) :
    Illegible bytes failure ∨ ∃ error, failure = .config error := by
  unfold ofBytes at failed
  split at failed
  next noText =>
    cases failed
    exact .inl (.notText noText)
  next text isText =>
    split at failed
    next =>
      cases failed
      exact .inr ⟨_, rfl⟩
    next huge =>
      cases failed
      exact .inl (.tooLong text isText huge)
    next document _ => exact .inr (Outcome.of_mapError_eq_error failed)

/-! ## The configuration -/

/-- A configuration whose file was found and read is what its bytes and the environment say. -/
theorem load_of_read {file : Path} (located : locate disk path = .ok (some file))
    (isRead : disk.read file.toText = .ok bytes) (environment : Pairs Text) :
    load disk path environment =
      (ofBytes file.toText bytes >>= fun config =>
        (withEnvironment { config with source := some (String.ofList file.toText) }
          environment).mapError .config) := by
  rw [load, located]
  show (ofFile disk file >>= _) = _
  rw [ofFile, isRead]
  show ((ofBytes file.toText bytes >>= _) >>= _) = _
  cases ofBytes file.toText bytes <;> rfl

/-- An illegible configuration file is all that comes of its path. -/
theorem load_of_hasIllegible (has : HasIllegible disk path failure) (environment : Pairs Text) :
    load disk path environment = .error failure := by
  obtain ⟨file, bytes, located, isRead, illegible⟩ := has
  rw [load_of_read located isRead, ofBytes_of_illegible illegible]
  rfl

/-- What a configuration fails with: it is refused in words, or its file is illegible. -/
theorem hasIllegible_of_load (failed : load disk path environment = .error failure) :
    HasIllegible disk path failure ∨ ∃ error, failure = .config error := by
  cases located : locate disk path with
  | error error =>
    rw [load, located] at failed
    cases failed
    exact .inr ⟨error, rfl⟩
  | ok file? =>
    cases file? with
    | none =>
      rw [load, located] at failed
      exact .inr (Outcome.of_mapError_eq_error failed)
    | some file =>
      obtain ⟨bytes, isRead⟩ := read_of_hasFile (hasFile_of_locate located)
      rw [load_of_read located isRead, Outcome.bind_eq_error] at failed
      rcases failed with notHeld | ⟨config, -, refused⟩
      · refine (illegible_of_ofBytes notHeld).imp_left fun illegible => ?_
        exact ⟨file, bytes, located, isRead, illegible⟩
      · exact .inr (Outcome.of_mapError_eq_error refused)

/-- The depth of a configuration that was read is natural. -/
theorem natural_of_load {config : Config} (loaded : load disk path environment = .ok config) :
    0 ≤ config.maxBraceDepth := by
  obtain ⟨file?, document, located, holds⟩ : ∃ file? document, locate disk path = .ok file? ∧
      document? disk file? = some document := by
    cases located : locate disk path with
    | error error =>
      rw [load, located] at loaded
      cases loaded
    | ok file? =>
      cases file? with
      | none => exact ⟨none, [], rfl, rfl⟩
      | some file =>
        obtain ⟨bytes, isRead⟩ := read_of_hasFile (hasFile_of_locate located)
        rw [load_of_read located isRead, Outcome.bind_eq_ok] at loaded
        obtain ⟨held, holds, -⟩ := loaded
        unfold ofBytes at holds
        split at holds
        next => cases holds
        next text isText =>
          split at holds
          next => cases holds
          next => cases holds
          next document isDocument =>
            exact ⟨some file, document, rfl,
              document?_file.mpr ⟨bytes, text, isRead, isText, isDocument⟩⟩
  rw [load_located located holds, Outcome.mapError_eq_ok, Outcome.bind_eq_ok] at loaded
  obtain ⟨table, isTable, done⟩ := loaded
  obtain ⟨entries, isSettings, -, all⟩ := ofDocument_eq_ok.mp isTable
  have taken := setAll_ok (settings_distinct (document_distinct holds) isSettings) all
  exact natural_of_chosen (chosen_of_taken taken (withEnvironment_ok done) .maxBraceDepth)

end Config

/-! ## The command -/

namespace Command

open Config (HasIllegible)

variable {command : Command} {environment : Pairs Text} {session : Session} {path : Option Text}

/-- Where the configuration of a command is looked for can always be told, and telling it changes
nothing. -/
theorem configPath_ends (command : Command) (session : Session) :
    ∃ path, configPath command session = .ok path session ∧
      ∀ given, command.config = some given → path = some given := by
  obtain ⟨config, verbose, action⟩ := command
  cases config with
  | some given => exact ⟨some given, rfl, fun _ same => same⟩
  | none => cases action <;> exact ⟨_, rfl, nofun⟩

/-- The configuration of a command is the one for its path. -/
theorem readConfig_eq (isPath : configPath command session = .ok path session) :
    readConfig command environment session =
      Session.ofExcept (Config.load session.disk path environment) session :=
  bind_of_ok path session isPath

/-- A configuration that is refused in words ends the command with them and with status 1. -/
theorem run_refused {error : ConfigError}
    (isPath : configPath command session = .ok path session)
    (refused : Config.load session.disk path environment = .error (.config error)) :
    run command environment session = .ok ⟨.status 1, initialLevel⟩
      { session with
        printed := session.printed ++ (("Error: ".toList ++ error.message) ++ ['\n']) } := by
  rw [run, readConfig_eq isPath, refused]
  rfl

/-- An illegible configuration file ends the command with a failure that it does not report. -/
theorem run_illegible {failure : Failure}
    (isPath : configPath command session = .ok path session)
    (has : HasIllegible session.disk path failure) :
    run command environment session = .error failure session := by
  have unreported : failure.report? = none := by
    obtain ⟨_, _, _, _, illegible⟩ := has
    cases illegible <;> rfl
  rw [run, readConfig_eq isPath, Config.load_of_hasIllegible has]
  show ((⟨·, initialLevel⟩) <$> report failure : SessionTask Result) session = _
  rw [report, unreported]
  rfl

/-- A configuration is refused in words, whatever its file holds and whatever the environment sets,
unless the file is illegible: no text, or a text with a number that is too long. These two failures
come up as they are. So a command ends with words and status 1 for all other files that it cannot
take, and without words for these.

Proof: a file that was found can be read. What its bytes fail with is settled before anything is
taken from them, and behind that everything is refused in words only. -/
theorem refuses_unless_illegible (environment : Pairs Text) :
    (∀ disk path failure, Config.load disk path environment = .error failure →
      HasIllegible disk path failure ∨ ∃ error, failure = .config error) ∧
    (∀ disk path failure, HasIllegible disk path failure →
      Config.load disk path environment = .error failure ∧ ∀ error, failure ≠ .config error) ∧
    ∀ (command : Command) (session : Session), ∃ path,
      configPath command session = .ok path session ∧
      (∀ given, command.config = some given → path = some given) ∧
      (∀ error, Config.load session.disk path environment = .error (.config error) →
        run command environment session = .ok ⟨.status 1, initialLevel⟩
          { session with
            printed := session.printed ++ (("Error: ".toList ++ error.message) ++ ['\n']) }) ∧
      ∀ failure, HasIllegible session.disk path failure →
        run command environment session = .error failure session := by
  refine ⟨fun disk path failure => Config.hasIllegible_of_load, ?_, ?_⟩
  · intro disk path failure has
    refine ⟨Config.load_of_hasIllegible has environment, ?_⟩
    rintro error rfl
    obtain ⟨_, _, _, _, illegible⟩ := has
    cases illegible
  · intro command session
    obtain ⟨path, isPath, given⟩ := configPath_ends command session
    exact ⟨path, isPath, given, fun error => run_refused isPath,
      fun failure => run_illegible isPath⟩

/-- A configuration file of one byte that begins no character: building its directory fails without
words. -/
theorem refuses_unless_illegible_byte :
    let session : Session := ⟨⟨[(["templight.toml"], .file [0xFF])], []⟩, [], []⟩
    run ⟨none, false, .build ['/'] false⟩ [] session = .error .undecodable session := by
  intro session
  obtain ⟨-, -, runs⟩ := refuses_unless_illegible []
  obtain ⟨path, isPath, -, -, fails⟩ := runs ⟨none, false, .build ['/'] false⟩ session
  have isRoot : path = some ['/'] := by
    have found : configPath ⟨none, false, .build ['/'] false⟩ session =
        .ok (some ['/']) session := rfl
    rw [isPath] at found
    cases found
    rfl
  subst isRoot
  apply fails
  refine ⟨⟨1, ["templight.toml"]⟩, [0xFF], ?_, ?_, .notText ?_⟩
  · decide +kernel
  · decide +kernel
  · decide +kernel

end Command

end TemplHighlight
