import TemplHighlight.Config.Setting
import TemplHighlight.Proofs.Outcome
import TemplHighlight.Proofs.Pairs

/-!
# What settings take

Each setting takes values of one kind and sets one part of a configuration. A table of settings with
distinct names is taken over if and only if each value is of the kind of its setting, and then every
part is what the table says of it, whatever the order, or what it was if the table says nothing.
-/

namespace TemplHighlight

/-- A part of a configuration. -/
inductive Content where
  | text (text : String)
  | words (words : List String)
  | depth (depth : Int)

namespace Setting

/-- The kinds of values that settings take. -/
inductive Kind where
  /-- A string, as it is. -/
  | text
  /-- A list of strings, in order. -/
  | words
  /-- A list of strings that stands for the set of them. -/
  | names
  /-- A whole number that is not negative. -/
  | depth
  /-- The name of a log level, in small letters or capitals. -/
  | level

/-- The kind of a setting's values. -/
def kind : Setting → Kind
  | language | markupGrammar | scriptGrammar => .text
  | extraKeywords => .words
  | maxBraceDepth => .depth
  | watchExtensions | ignoreDirs => .names
  | logLevel => .level

/-- The values of each kind, and what they say. -/
inductive Kind.Reads : Kind → Toml.Value → Content → Prop where
  | text (text : Text) : Reads .text (.string text) (.text (String.ofList text))
  | words (texts : List Text) :
    Reads .words (.array (texts.map .string)) (.words (texts.map String.ofList))
  | names (texts : List Text) :
    Reads .names (.array (texts.map .string)) (.words (nameSet (texts.map String.ofList)))
  | depth (depth : Int) (natural : 0 ≤ depth) : Reads .depth (.integer depth) (.depth depth)
  | level (text : Text) (known : String.ofList (text.map capital) ∈ levelNames) :
    Reads .level (.string text) (.text (String.ofList (text.map capital)))

/-- Whether a value is of the kind of a setting. -/
def Takes (setting : Setting) (value : Toml.Value) : Prop :=
  ∃ content, setting.kind.Reads value content

/-! ## Names -/

/-- Each setting is found by its name. -/
theorem ofName?_name (setting : Setting) : ofName? setting.name = some setting := by
  cases setting <;> decide

/-- A name that is found is the name of the setting. -/
theorem name_of_ofName? {name : String} {setting : Setting} (found : ofName? name = some setting) :
    setting.name = name := by
  rw [ofName?] at found
  simpa using List.find?_some found

/-- Different settings have different names. -/
theorem name_injective {setting other : Setting} (same : setting.name = other.name) :
    setting = other :=
  Option.some.inj ((ofName?_name setting).symm.trans (same ▸ ofName?_name other))

/-- A name that is not found is the name of no setting. -/
theorem name_ne_of_ofName? {name : String} (missing : ofName? name = none) (setting : Setting) :
    setting.name ≠ name := by
  rintro rfl
  rw [ofName?_name] at missing
  cases missing

/-! ## One value -/

variable {setting : Setting} {value : Toml.Value}

/-- A string has to be one. -/
theorem text_eq_ok {text : Text} : setting.text value = .ok text ↔ value = .string text := by
  cases value <;> simp [Setting.text]

/-- Items that are strings. -/
theorem mapM_item? {items : List Toml.Value} {words : List String} :
    items.mapM item? = some words ↔
      ∃ texts : List Text, items = texts.map .string ∧ words = texts.map String.ofList := by
  induction items generalizing words with
  | nil =>
    constructor
    · rintro ⟨⟩
      exact ⟨[], rfl, rfl⟩
    · rintro ⟨_ | ⟨text, texts⟩, ⟨⟩, rfl⟩
      rfl
  | cons item items inductionHypothesis =>
    rw [List.mapM_cons, Option.bind_eq_bind, Option.bind_eq_some_iff]
    constructor
    · rintro ⟨word, isWord, rest⟩
      obtain ⟨more, areWords, same⟩ := Option.bind_eq_some_iff.mp rest
      obtain ⟨texts, rfl, rfl⟩ := inductionHypothesis.mp areWords
      cases same
      cases item with
      | string text =>
        cases isWord
        exact ⟨text :: texts, rfl, rfl⟩
      | _ => cases isWord
    · rintro ⟨_ | ⟨text, texts⟩, same, rfl⟩
      · cases same
      · cases same
        refine ⟨String.ofList text, rfl, ?_⟩
        rw [inductionHypothesis.mpr ⟨texts, rfl, rfl⟩]
        rfl

/-- A list of strings has to be one. -/
theorem strings_eq_ok {words : List String} :
    setting.strings value = .ok words ↔
      ∃ texts : List Text, value = .array (texts.map .string) ∧
        words = texts.map String.ofList := by
  cases value with
  | array items =>
    simp only [Setting.strings, Toml.Value.array.injEq, ← mapM_item?]
    cases items.mapM item? <;> simp
  | _ => simp [Setting.strings]

/-- A brace depth is a whole number that is not negative. -/
theorem checkedDepth_eq_ok {given depth : Int} :
    checkedDepth given = .ok depth ↔ given = depth ∧ 0 ≤ depth := by
  rw [checkedDepth]
  split
  next negative => exact ⟨nofun, fun ⟨same, natural⟩ => by omega⟩
  next natural =>
    rw [Except.ok.injEq]
    exact ⟨fun same => ⟨same, by omega⟩, fun both => both.1⟩

/-- A brace depth has to be one. -/
theorem depth_eq_ok {depth : Int} :
    Setting.depth value = .ok depth ↔ value = .integer depth ∧ 0 ≤ depth := by
  cases value with
  | integer given => simp only [Setting.depth, checkedDepth_eq_ok, Toml.Value.integer.injEq]
  | _ => simp [Setting.depth]

/-- A log level has to be one. -/
theorem checkedLevel_eq_ok {given : Text} {level : String} :
    checkedLevel given = .ok level ↔
      level = String.ofList (given.map capital) ∧ level ∈ levelNames := by
  rw [checkedLevel]
  split
  next known =>
    rw [Except.ok.injEq]
    exact ⟨fun same => ⟨same.symm, same ▸ known⟩, fun both => both.1.symm⟩
  next unknown => exact ⟨nofun, fun ⟨same, known⟩ => absurd (same ▸ known) unknown⟩

end Setting

namespace Config

open Setting

variable {config after : Config} {setting : Setting} {value : Toml.Value}

/-- The part of a configuration that a setting sets. -/
def content (config : Config) : Setting → Content
  | .language => .text config.language
  | .markupGrammar => .text config.markupGrammar
  | .scriptGrammar => .text config.scriptGrammar
  | .extraKeywords => .words config.extraKeywords
  | .maxBraceDepth => .depth config.maxBraceDepth
  | .watchExtensions => .words config.watchExtensions
  | .ignoreDirs => .words config.ignoreDirs
  | .logLevel => .text config.logLevel

/-- Nothing but one setting has changed. -/
structure OnlyChanged (setting : Setting) (before after : Config) : Prop where
  others : ∀ other, other ≠ setting → after.content other = before.content other
  source : after.source = before.source

/-- A setting that was changed says what the value says. -/
theorem set_ok (done : config.set setting value = .ok after) :
    setting.kind.Reads value (after.content setting) ∧ OnlyChanged setting config after := by
  cases setting with
  | language | markupGrammar | scriptGrammar =>
    obtain ⟨text, isText, rfl⟩ := Outcome.map_eq_ok.mp done
    obtain rfl := text_eq_ok.mp isText
    exact ⟨.text text, fun other differ => by cases other <;> trivial, rfl⟩
  | extraKeywords =>
    obtain ⟨words, areWords, rfl⟩ := Outcome.map_eq_ok.mp done
    obtain ⟨texts, rfl, rfl⟩ := strings_eq_ok.mp areWords
    exact ⟨.words texts, fun other differ => by cases other <;> trivial, rfl⟩
  | maxBraceDepth =>
    obtain ⟨depth, isDepth, rfl⟩ := Outcome.map_eq_ok.mp done
    obtain ⟨rfl, natural⟩ := depth_eq_ok.mp isDepth
    exact ⟨.depth depth natural, fun other differ => by cases other <;> trivial, rfl⟩
  | watchExtensions | ignoreDirs =>
    obtain ⟨words, areWords, rfl⟩ := Outcome.map_eq_ok.mp done
    obtain ⟨texts, rfl, rfl⟩ := strings_eq_ok.mp areWords
    exact ⟨.names texts, fun other differ => by cases other <;> trivial, rfl⟩
  | logLevel =>
    obtain ⟨text, isText, done⟩ := Outcome.bind_eq_ok.mp done
    obtain ⟨level, isLevel, same⟩ := Outcome.bind_eq_ok.mp done
    cases same
    obtain rfl := text_eq_ok.mp isText
    obtain ⟨rfl, known⟩ := checkedLevel_eq_ok.mp isLevel
    exact ⟨.level text known, fun other differ => by cases other <;> trivial, rfl⟩

/-- Every value of the right kind is taken. -/
theorem set_total (config : Config) (takes : setting.Takes value) :
    ∃ after, config.set setting value = .ok after := by
  obtain ⟨content, reads⟩ := takes
  cases setting with
  | language | markupGrammar | scriptGrammar =>
    cases reads with
    | text text => exact ⟨_, rfl⟩
  | extraKeywords =>
    cases reads with
    | words texts =>
      exact ⟨_, Outcome.map_eq_ok.mpr ⟨_, strings_eq_ok.mpr ⟨texts, rfl, rfl⟩, rfl⟩⟩
  | maxBraceDepth =>
    cases reads with
    | depth depth natural =>
      exact ⟨_, Outcome.map_eq_ok.mpr ⟨depth, depth_eq_ok.mpr ⟨rfl, natural⟩, rfl⟩⟩
  | watchExtensions | ignoreDirs =>
    cases reads with
    | names texts =>
      exact ⟨_, Outcome.map_eq_ok.mpr ⟨_, strings_eq_ok.mpr ⟨texts, rfl, rfl⟩, rfl⟩⟩
  | logLevel =>
    cases reads with
    | level text known =>
      refine Outcome.bind_total ⟨text, rfl, ?_⟩
      exact Outcome.bind_total ⟨_, checkedLevel_eq_ok.mpr ⟨rfl, known⟩, _, rfl⟩

/-! ## A table of settings -/

variable {entries : Pairs Toml.Value}

/-- A table of settings was taken over. -/
structure Taken (entries : Pairs Toml.Value) (before after : Config) : Prop where
  given : ∀ setting : Setting, ∀ value, Pairs.get? setting.name entries = some value →
    setting.kind.Reads value (after.content setting)
  missing : ∀ setting : Setting, Pairs.get? setting.name entries = none →
    after.content setting = before.content setting
  source : after.source = before.source

/-- An entry that is no setting is left out. -/
theorem Taken.skip (taken : Taken entries config after) {name : String}
    (noSetting : ofName? name = none) : Taken ((name, value) :: entries) config after := by
  have elsewhere (setting : Setting) :
      Pairs.get? setting.name ((name, value) :: entries) = Pairs.get? setting.name entries := by
    rw [Pairs.get?, if_neg (name_ne_of_ofName? noSetting setting).symm]
  refine ⟨fun setting given found => ?_, fun setting missing => ?_, taken.source⟩
  · exact taken.given setting given (elsewhere setting ▸ found)
  · exact taken.missing setting (elsewhere setting ▸ missing)

/-- A setting that comes first is taken over if no later entry is of its name. -/
theorem Taken.set {next : Config} (taken : Taken entries next after)
    (reads : setting.kind.Reads value (next.content setting))
    (changed : OnlyChanged setting config next)
    (once : Pairs.get? setting.name entries = none) :
    Taken ((setting.name, value) :: entries) config after := by
  constructor
  case given =>
    intro other given found
    rw [Pairs.get?] at found
    split at found
    next same =>
      cases found
      cases name_injective same
      rwa [taken.missing setting once]
    next => exact taken.given other given found
  case missing =>
    intro other missing
    rw [Pairs.get?] at missing
    split at missing
    next => cases missing
    next differ =>
      rw [taken.missing other missing]
      exact changed.others other fun same => differ (same ▸ rfl)
  case source => rw [taken.source, changed.source]

/-- A table of settings with distinct names is taken over as it stands. -/
theorem setAll_ok (distinct : (Pairs.names entries).Nodup)
    (done : setAll config entries = .ok after) : Taken entries config after := by
  induction entries generalizing config with
  | nil =>
    cases done
    exact ⟨nofun, fun _ _ => rfl, rfl⟩
  | cons entry entries inductionHypothesis =>
    obtain ⟨name, value⟩ := entry
    obtain ⟨new, later⟩ := List.nodup_cons.mp distinct
    rw [setAll] at done
    split at done
    next setting found =>
      obtain ⟨next, changed, done⟩ := Outcome.bind_eq_ok.mp done
      obtain rfl := name_of_ofName? found
      obtain ⟨reads, only⟩ := set_ok changed
      exact (inductionHypothesis later done).set reads only (Pairs.get?_eq_none.mpr new)
    next noSetting => exact (inductionHypothesis later done).skip noSetting

/-- A table of settings is taken over if each value is of the kind of its setting. -/
theorem setAll_total (config : Config) (distinct : (Pairs.names entries).Nodup)
    (takes : ∀ setting : Setting, ∀ value, Pairs.get? setting.name entries = some value →
      setting.Takes value) :
    ∃ after, setAll config entries = .ok after := by
  induction entries generalizing config with
  | nil => exact ⟨config, rfl⟩
  | cons entry entries inductionHypothesis =>
    obtain ⟨name, value⟩ := entry
    obtain ⟨new, later⟩ := List.nodup_cons.mp distinct
    have rest (config : Config) : ∃ after, setAll config entries = .ok after := by
      refine inductionHypothesis config later fun setting value found => takes setting value ?_
      have differ : name ≠ setting.name := by
        rintro rfl
        rw [Pairs.get?_eq_none.mpr new] at found
        cases found
      rw [Pairs.get?, if_neg differ, found]
    rw [setAll]
    split
    next setting found =>
      obtain rfl := name_of_ofName? found
      obtain ⟨next, changed⟩ := set_total config (takes setting value (if_pos rfl))
      exact Outcome.bind_total ⟨next, changed, rest next⟩
    next => exact rest config

end Config

end TemplHighlight
