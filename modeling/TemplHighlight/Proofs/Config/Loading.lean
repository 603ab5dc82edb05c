import TemplHighlight.Config.Load
import TemplHighlight.Proofs.Config.Settings
import TemplHighlight.Proofs.Registry.Recomposing
import TemplHighlight.Proofs.Toml.Distinct

/-!
# Where a configuration comes from

A configuration is what the environment sets, and where that sets nothing what the file sets, and
otherwise what holds by default, each part for itself. It is refused if the file or the environment
has a value that its setting does not take, or the file has an entry that is no setting. A registry
for a configuration that was loaded can only be refused for want of a grammar.
-/

namespace TemplHighlight

namespace Setting

/-- The variable of the environment that goes before a setting. -/
def environmentName? : Setting → Option String
  | maxBraceDepth => some Config.depthVariable
  | logLevel => some Config.levelVariable
  | _ => none

/-- What the environment says for a setting. -/
def override? (setting : Setting) (environment : Pairs Text) : Option Text :=
  setting.environmentName?.bind (Pairs.get? · environment)

/-- The value that is written in the environment: a whole number where one is needed, and elsewhere
the text itself. -/
def written? : Setting → Text → Option Toml.Value
  | maxBraceDepth, text => text.integer?.map .integer
  | _, text => some (.string text)

end Setting

namespace Config

open Setting

variable {config after : Config} {environment : Pairs Text}

/-! ## The environment -/

/-- The brace depth that the environment sets, if it sets one. -/
theorem depthOf_eq_ok {depth : Option Int} :
    depthOf environment = .ok depth ↔
      match Pairs.get? depthVariable environment with
      | none => depth = none
      | some text => ∃ number, text.integer? = some number ∧ 0 ≤ number ∧ depth = some number := by
  unfold depthOf
  cases Pairs.get? depthVariable environment with
  | none => exact ⟨fun same => (Except.ok.inj same).symm, fun same => same ▸ rfl⟩
  | some text =>
    dsimp only
    cases text.integer? with
    | none => exact ⟨nofun, nofun⟩
    | some number =>
      constructor
      · intro read
        obtain ⟨depth, checked, rfl⟩ := Outcome.map_eq_ok.mp read
        obtain ⟨rfl, natural⟩ := checkedDepth_eq_ok.mp checked
        exact ⟨number, rfl, natural, rfl⟩
      · rintro ⟨_, ⟨⟩, natural, rfl⟩
        exact Outcome.map_eq_ok.mpr ⟨number, checkedDepth_eq_ok.mpr ⟨rfl, natural⟩, rfl⟩

/-- The log level that the environment sets, if it sets one. -/
theorem levelOf_eq_ok {level : Option String} :
    levelOf environment = .ok level ↔
      match Pairs.get? levelVariable environment with
      | none => level = none
      | some text => String.ofList (text.map capital) ∈ levelNames ∧
          level = some (String.ofList (text.map capital)) := by
  unfold levelOf
  cases Pairs.get? levelVariable environment with
  | none => exact ⟨fun same => (Except.ok.inj same).symm, fun same => same ▸ rfl⟩
  | some text =>
    constructor
    · intro read
      obtain ⟨level, checked, rfl⟩ := Outcome.map_eq_ok.mp read
      obtain ⟨rfl, known⟩ := checkedLevel_eq_ok.mp checked
      exact ⟨known, rfl⟩
    · rintro ⟨known, rfl⟩
      exact Outcome.map_eq_ok.mpr ⟨_, checkedLevel_eq_ok.mpr ⟨rfl, known⟩, rfl⟩

/-- Whether all that the environment says is of the kind of the setting that it is for. -/
def ValidEnvironment (environment : Pairs Text) : Prop :=
  ∀ setting : Setting, ∀ text, setting.override? environment = some text →
    ∃ value, setting.written? text = some value ∧ setting.Takes value

/-- What the environment says was taken over. -/
structure Overridden (environment : Pairs Text) (before after : Config) : Prop where
  given : ∀ setting : Setting, ∀ text, setting.override? environment = some text →
    ∃ value, setting.written? text = some value ∧
      setting.kind.Reads value (after.content setting)
  missing : ∀ setting : Setting, setting.override? environment = none →
    after.content setting = before.content setting
  source : after.source = before.source

/-- What the environment says goes before what was set, and nothing else changes. -/
theorem withEnvironment_ok (done : config.withEnvironment environment = .ok after) :
    Overridden environment config after := by
  obtain ⟨depth, isDepth, done⟩ := Outcome.bind_eq_ok.mp done
  obtain ⟨level, isLevel, same⟩ := Outcome.bind_eq_ok.mp done
  cases same
  rw [depthOf_eq_ok] at isDepth
  rw [levelOf_eq_ok] at isLevel
  constructor
  case given =>
    intro setting text found
    cases setting with
    | maxBraceDepth =>
      have here : Pairs.get? depthVariable environment = some text := found
      rw [here] at isDepth
      obtain ⟨number, isNumber, natural, rfl⟩ := isDepth
      refine ⟨.integer number, ?_, .depth number natural⟩
      rw [written?, isNumber]
      rfl
    | logLevel =>
      have here : Pairs.get? levelVariable environment = some text := found
      rw [here] at isLevel
      obtain ⟨known, rfl⟩ := isLevel
      exact ⟨.string text, rfl, .level text known⟩
    | _ => cases found
  case missing =>
    intro setting absent
    cases setting with
    | maxBraceDepth =>
      have here : Pairs.get? depthVariable environment = none := absent
      rw [here] at isDepth
      subst isDepth
      rfl
    | logLevel =>
      have here : Pairs.get? levelVariable environment = none := absent
      rw [here] at isLevel
      subst isLevel
      rfl
    | _ => rfl
  case source => rfl

/-- What was taken over is valid. -/
theorem Overridden.valid (overridden : Overridden environment config after) :
    ValidEnvironment environment := by
  intro setting text found
  obtain ⟨value, isWritten, reads⟩ := overridden.given setting text found
  exact ⟨value, isWritten, _, reads⟩

/-- A valid environment is taken over. -/
theorem withEnvironment_total (config : Config) (valid : ValidEnvironment environment) :
    ∃ after, config.withEnvironment environment = .ok after := by
  have hasDepth : ∃ depth, depthOf environment = .ok depth := by
    simp only [depthOf_eq_ok]
    cases here : Pairs.get? depthVariable environment with
    | none => exact ⟨none, rfl⟩
    | some text =>
      obtain ⟨value, isWritten, content, reads⟩ := valid .maxBraceDepth text here
      obtain ⟨number, isNumber, rfl⟩ := Option.map_eq_some_iff.mp isWritten
      cases reads with
      | depth number natural => exact ⟨some number, number, isNumber, natural, rfl⟩
  have hasLevel : ∃ level, levelOf environment = .ok level := by
    simp only [levelOf_eq_ok]
    cases here : Pairs.get? levelVariable environment with
    | none => exact ⟨none, rfl⟩
    | some text =>
      obtain ⟨value, isWritten, content, reads⟩ := valid .logLevel text here
      cases isWritten
      cases reads with
      | level text known => exact ⟨_, known, rfl⟩
  obtain ⟨depth, isDepth⟩ := hasDepth
  obtain ⟨level, isLevel⟩ := hasLevel
  exact Outcome.bind_total ⟨depth, isDepth, Outcome.bind_total ⟨level, isLevel, _, rfl⟩⟩

/-! ## The file -/

variable {entries document : Pairs Toml.Value}

/-- The table of settings of a document; an empty one if it has none. There is no such table if
something else has its name. -/
def settings? (document : Pairs Toml.Value) : Option (Pairs Toml.Value) :=
  match Pairs.get? "templight" document with
  | none => some []
  | some (.table entries) => some entries
  | some _ => none

/-- Whether a document has nothing but settings in its table of settings, each with a value that it
takes. -/
def ValidDocument (document : Pairs Toml.Value) : Prop :=
  ∃ entries, settings? document = some entries ∧
    (∀ name ∈ Pairs.names entries, ∃ setting : Setting, setting.name = name) ∧
    ∀ setting : Setting, ∀ value, Pairs.get? setting.name entries = some value →
      setting.Takes value

/-- The names in a table are all settings if none is reported. -/
theorem unknown_isEmpty {names : List String} :
    (names.filter fun name => (Setting.ofName? name).isNone).isEmpty = true ↔
      ∀ name ∈ names, ∃ setting : Setting, setting.name = name := by
  simp only [List.isEmpty_iff, List.filter_eq_nil_iff, Option.isNone_iff_eq_none]
  refine forall₂_congr fun name _ => ⟨fun known => ?_, ?_⟩
  · obtain ⟨setting, found⟩ := Option.ne_none_iff_exists'.mp known
    exact ⟨setting, name_of_ofName? found⟩
  · rintro ⟨setting, rfl⟩ unknown
    exact name_ne_of_ofName? unknown setting rfl

/-- The table of settings has distinct names. -/
theorem settings_distinct (distinct : (Toml.Value.table document).Distinct)
    (isTable : settings? document = some entries) : (Pairs.names entries).Nodup := by
  unfold settings? at isTable
  split at isTable
  next =>
    cases isTable
    exact List.nodup_nil
  next found =>
    cases isTable
    exact (distinct.found found).names
  next => cases isTable

/-- A document is refused if its settings are in no table or some of them are unknown; otherwise
its table is taken over. -/
theorem ofDocument_eq_ok {path : Text} :
    ofDocument path document = .ok config ↔
      ∃ entries, settings? document = some entries ∧
        (∀ name ∈ Pairs.names entries, ∃ setting : Setting, setting.name = name) ∧
        setAll {} entries = .ok config := by
  unfold ofDocument settings?
  cases Pairs.get? "templight" document with
  | none =>
    refine ⟨fun done => ⟨[], rfl, nofun, done⟩, ?_⟩
    rintro ⟨_, ⟨⟩, -, done⟩
    exact done
  | some value =>
    cases value with
    | table entries =>
      dsimp only
      by_cases known : ∀ name ∈ Pairs.names entries, ∃ setting : Setting, setting.name = name
      · rw [if_pos (unknown_isEmpty.mpr known)]
        refine ⟨fun done => ⟨entries, rfl, known, done⟩, ?_⟩
        rintro ⟨_, ⟨⟩, -, done⟩
        exact done
      · rw [if_neg fun isEmpty => known (unknown_isEmpty.mp isEmpty)]
        refine ⟨nofun, ?_⟩
        rintro ⟨_, ⟨⟩, again, -⟩
        exact absurd again known
    | _ => exact ⟨nofun, nofun⟩

/-- A document is taken over if and only if it is valid. -/
theorem ofDocument_isOk (path : Text) (distinct : (Toml.Value.table document).Distinct) :
    (∃ config, ofDocument path document = .ok config) ↔ ValidDocument document := by
  constructor
  · rintro ⟨config, done⟩
    obtain ⟨entries, isTable, known, done⟩ := ofDocument_eq_ok.mp done
    have taken := setAll_ok (settings_distinct distinct isTable) done
    exact ⟨entries, isTable, known, fun setting value found =>
      ⟨_, taken.given setting value found⟩⟩
  · rintro ⟨entries, isTable, known, takes⟩
    obtain ⟨config, done⟩ := setAll_total {} (settings_distinct distinct isTable) takes
    exact ⟨config, ofDocument_eq_ok.mpr ⟨entries, isTable, known, done⟩⟩

/-! ## Both together -/

/-- The document that a configuration file holds; without such a file an empty one. -/
def document? (disk : Disk) : Option Path → Option (Pairs Toml.Value)
  | none => some []
  | some file => do
    let bytes ← (disk.read file.toText).toOption
    let text ← Utf8.decode? bytes
    (Toml.parse text).toOption

/-- How a configuration says which file it was read from. -/
def sourceOf (file? : Option Path) : Option String :=
  file?.map fun file => String.ofList file.toText

/-- A file holds a document if it can be read, decoded and parsed. -/
theorem document?_file {disk : Disk} {file : Path} :
    document? disk (some file) = some document ↔
      ∃ bytes text, disk.read file.toText = .ok bytes ∧ Utf8.decode? bytes = some text ∧
        Toml.parse text = .ok document := by
  simp only [document?, Option.bind_eq_bind, Option.bind_eq_some_iff, Outcome.toOption_eq_some]
  exact ⟨fun ⟨bytes, isRead, text, isText, isDocument⟩ => ⟨bytes, text, isRead, isText, isDocument⟩,
    fun ⟨bytes, text, isRead, isText, isDocument⟩ => ⟨bytes, isRead, text, isText, isDocument⟩⟩

/-- Every table of such a document has distinct names. -/
theorem document_distinct {disk : Disk} {file? : Option Path}
    (holds : document? disk file? = some document) : (Toml.Value.table document).Distinct := by
  cases file? with
  | none =>
    cases holds
    exact Toml.Value.distinct_empty
  | some file =>
    obtain ⟨bytes, text, -, -, isDocument⟩ := document?_file.mp holds
    exact Toml.parse_distinct isDocument

/-- There may be a configuration file where a path leads to something. -/
theorem locate_of_present {disk : Disk} {path : Option Text}
    (present : ∀ given, path = some given → disk.has (Path.ofText given).toText = true) :
    ∃ file?, locate disk path = .ok file? := by
  cases path with
  | none => exact ⟨_, rfl⟩
  | some given =>
    rw [locate]
    split
    next => exact ⟨_, rfl⟩
    next =>
      rw [if_pos (present given rfl)]
      exact ⟨_, rfl⟩

/-- A document that can be read is taken over, and then the environment. -/
theorem load_located {disk : Disk} {path : Option Text} {file? : Option Path}
    (located : locate disk path = .ok file?) (holds : document? disk file? = some document)
    (environment : Pairs Text) :
    load disk path environment =
      (do
        let config ← ofDocument ((file?.map Path.toText).getD []) document
        withEnvironment { config with source := sourceOf file? } environment).mapError .config := by
  rw [load, located]
  cases file? with
  | none =>
    cases holds
    rfl
  | some file =>
    obtain ⟨bytes, text, isRead, isText, isDocument⟩ := document?_file.mp holds
    have isConfig : ofBytes file.toText bytes =
        (ofDocument file.toText document).mapError .config := by
      simp only [ofBytes, isText, isDocument]
    show (ofFile disk file >>= fun config =>
      (config.withEnvironment environment).mapError .config) = _
    rw [ofFile, isRead]
    show ((ofBytes file.toText bytes >>= fun config =>
      pure { config with source := some (String.ofList file.toText) }) >>= fun config =>
        (config.withEnvironment environment).mapError .config) = _
    rw [isConfig]
    show _ = ((ofDocument file.toText document >>= _) : Except ConfigError Config).mapError _
    cases ofDocument file.toText document <;> rfl

/-- What a part of a configuration is: what the environment says, otherwise what the table of
settings says, otherwise what holds by default. -/
def Chosen (entries : Pairs Toml.Value) (environment : Pairs Text) (setting : Setting)
    (content : Content) : Prop :=
  match setting.override? environment with
  | some text => ∃ value, setting.written? text = some value ∧ setting.kind.Reads value content
  | none =>
    match Pairs.get? setting.name entries with
    | some value => setting.kind.Reads value content
    | none => content = ({} : Config).content setting

/-- What the environment leaves as it was is what the table says, or holds by default. -/
theorem chosen_of_taken {loaded : Config} {source : Option String} (taken : Taken entries {} config)
    (overridden : Overridden environment { config with source } loaded) (setting : Setting) :
    Chosen entries environment setting (loaded.content setting) := by
  have same : ({ config with source } : Config).content setting = config.content setting := by
    cases setting <;> rfl
  unfold Chosen
  split
  next text found => exact overridden.given setting text found
  next absent =>
    rw [overridden.missing setting absent, same]
    split
    next value found => exact taken.given setting value found
    next missing => exact taken.missing setting missing

/-- A brace depth that was chosen is not negative. -/
theorem natural_of_chosen
    (chosen : Chosen entries environment .maxBraceDepth (config.content .maxBraceDepth)) :
    0 ≤ config.maxBraceDepth := by
  have ofReads {value : Toml.Value}
      (reads : Setting.Kind.Reads .depth value (.depth config.maxBraceDepth)) :
      0 ≤ config.maxBraceDepth := by
    cases reads
    assumption
  unfold Chosen at chosen
  split at chosen
  next =>
    obtain ⟨value, -, reads⟩ := chosen
    exact ofReads reads
  next =>
    split at chosen
    next => exact ofReads chosen
    next =>
      have isDefault : config.maxBraceDepth = 2 := Content.depth.inj chosen
      omega

/-- A configuration is loaded from every path that leads to something, with a configuration file
that can be read or with none, and from every environment.

It is refused, as a configuration that is not valid, if and only if the file has something other than
settings in its table, or there or in the environment is a value that its setting does not take.
Otherwise each part is what the environment says, or else what the file says, or else what holds by
default; and a registry for it is refused only for want of a grammar.

Proof: the tables of a document have distinct names, so that what stands under a name is all that is
said of it; a table is taken over entry by entry, and the environment after it. The depth is natural
then, and of the base grammars each can be composed in its own role. -/
theorem load_exact {disk : Disk} {path : Option Text} (environment : Pairs Text)
    (present : ∀ given, path = some given → disk.has (Path.ofText given).toText = true)
    (readable : ∀ file, locate disk path = .ok (some file) →
      (document? disk (some file)).isSome = true) :
    ∃ file? document, locate disk path = .ok file? ∧ document? disk file? = some document ∧
      ((∃ config, load disk path environment = .ok config) ↔
        ValidDocument document ∧ ValidEnvironment environment) ∧
      (∀ failure, load disk path environment = .error failure →
        ∃ error, failure = .config error) ∧
      ∀ config, load disk path environment = .ok config →
        (∃ entries, settings? document = some entries ∧
          ∀ setting, Chosen entries environment setting (config.content setting)) ∧
        config.source = sourceOf file? ∧
        ((∃ registry log, Registry.create config = .ok (registry, log)) ∨
          ∃ name detail, Registry.create config = .error (.compose (.missing name detail))) := by
  obtain ⟨file?, located⟩ := locate_of_present present
  obtain ⟨document, holds⟩ : ∃ document, document? disk file? = some document := by
    cases file? with
    | none => exact ⟨[], rfl⟩
    | some file => exact Option.isSome_iff_exists.mp (readable file located)
  have distinct := document_distinct holds
  have loads := load_located located holds environment
  refine ⟨file?, document, located, holds, ?_, fun failure failed => ?_, fun config loaded => ?_⟩
  · simp only [loads, Outcome.mapError_eq_ok, Outcome.bind_eq_ok]
    constructor
    · rintro ⟨config, taken, isTaken, done⟩
      exact ⟨(ofDocument_isOk _ distinct).mp ⟨taken, isTaken⟩, (withEnvironment_ok done).valid⟩
    · rintro ⟨valid, validEnvironment⟩
      obtain ⟨taken, isTaken⟩ := (ofDocument_isOk _ distinct).mpr valid
      obtain ⟨config, done⟩ :=
        withEnvironment_total { taken with source := sourceOf file? } validEnvironment
      exact ⟨config, taken, isTaken, done⟩
  · rw [loads] at failed
    exact Outcome.of_mapError_eq_error failed
  · rw [loads, Outcome.mapError_eq_ok, Outcome.bind_eq_ok] at loaded
    obtain ⟨table, isTable, done⟩ := loaded
    obtain ⟨entries, isSettings, -, all⟩ := ofDocument_eq_ok.mp isTable
    have taken := setAll_ok (settings_distinct distinct isSettings) all
    have overridden := withEnvironment_ok done
    have chosen := chosen_of_taken taken overridden
    exact ⟨⟨entries, isSettings, chosen⟩, overridden.source,
      Registry.create_or_missing (natural_of_chosen (chosen .maxBraceDepth))⟩

/-- A directory with a configuration file, and an environment that sets another brace depth than the
file. -/
theorem load_exact_directory :
    let file := "[templight]\nlanguage_id = \"docs\"\nmax_brace_depth = 4\n"
    let disk : Disk := ⟨[(["templight.toml"], .file (Utf8.encode file.toList))], []⟩
    let environment : Pairs Text := [(depthVariable, " 1_0 ".toList)]
    ∃ config, load disk (some ['/']) environment = .ok config ∧
      config.source = some "/templight.toml" ∧
      ∃ value, Setting.maxBraceDepth.written? " 1_0 ".toList = some value ∧
        Kind.Reads .depth value (.depth config.maxBraceDepth) := by
  intro file disk environment
  have present : ∀ given, some ['/'] = some given →
      disk.has (Path.ofText given).toText = true := by
    rintro _ ⟨⟩
    decide +kernel
  have located : locate disk (some ['/']) = .ok (some ⟨1, ["templight.toml"]⟩) := by decide +kernel
  have readable : ∀ file, locate disk (some ['/']) = .ok (some file) →
      (document? disk (some file)).isSome = true := by
    intro file same
    rw [located] at same
    cases same
    decide +kernel
  obtain ⟨config, loaded⟩ : ∃ config, (load disk (some ['/']) environment).toOption = some config :=
    Option.isSome_iff_exists.mp (by decide +kernel)
  rw [Outcome.toOption_eq_some] at loaded
  obtain ⟨file?, document, isFile, -, -, -, all⟩ := load_exact environment present readable
  obtain ⟨⟨entries, -, chosen⟩, source, -⟩ := all config loaded
  rw [located] at isFile
  cases isFile
  exact ⟨config, loaded, source, chosen .maxBraceDepth⟩

end Config

end TemplHighlight
