import TemplHighlight.Config.Basic
import TemplHighlight.Text.Integer
import TemplHighlight.Text.Quoted
import TemplHighlight.Toml.Basic

/-!
# Settings

The entries of a configuration file and the variables of the environment that say what a
configuration holds. A value is taken over only if it is of the setting's kind; the first that is
not is reported. Each setting changes one part of a configuration and leaves the others alone.
-/

namespace TemplHighlight

/-- What can be set in a configuration file. -/
inductive Setting where
  | language
  | markupGrammar
  | scriptGrammar
  | extraKeywords
  | maxBraceDepth
  | watchExtensions
  | ignoreDirs
  | logLevel
  deriving DecidableEq

namespace Setting

/-- The settings there are. -/
def all : List Setting :=
  [language, markupGrammar, scriptGrammar, extraKeywords, maxBraceDepth, watchExtensions,
    ignoreDirs, logLevel]

/-- The name under which a setting stands in a configuration file. -/
def name : Setting → String
  | language => "language_id"
  | markupGrammar => "markup_grammar"
  | scriptGrammar => "script_grammar"
  | extraKeywords => "extra_keywords"
  | maxBraceDepth => "max_brace_depth"
  | watchExtensions => "watch_extensions"
  | ignoreDirs => "ignore_dirs"
  | logLevel => "log_level"

/-- The setting of a name. -/
def ofName? (name : String) : Option Setting := all.find? (·.name = name)

end Setting

/-- Why there is no configuration. -/
inductive ConfigError where
  /-- The path that was given leads nowhere. -/
  | notFound (path : Text)
  /-- The file is no TOML document. -/
  | malformed (path : Text)
  /-- The settings in the file are not in a table. -/
  | notTable (path : Text)
  /-- The file has entries that are no settings. -/
  | unknownSettings (path : Text) (names : List String)
  /-- A truth value stands where a whole number is needed. -/
  | truthValue (setting : Setting) (value : Bool)
  /-- A setting is of the wrong kind. -/
  | wrongKind (setting : Setting) (expected found : String)
  /-- Not every item of a list is a string. -/
  | notStrings (setting : Setting)
  /-- The brace depth is negative. -/
  | negativeDepth (depth : Int)
  /-- There is no such log level. -/
  | unknownLevel (given : Text)
  /-- The brace depth from the environment is not a whole number. -/
  | depthNotInteger (given : Text)
  deriving DecidableEq

/-- A setting's name in a report. -/
def Setting.shown (setting : Setting) : Text := '\'' :: setting.name.toList ++ ['\'']

/-- The words for a configuration that could not be read. -/
def ConfigError.message : ConfigError → Text
  | notFound path => "Config file not found: ".toList ++ path
  | malformed path => "Invalid TOML in ".toList ++ path
  | notTable path => "[templight] in ".toList ++ path ++ " must be a table".toList
  | unknownSettings path names =>
    "Unknown settings in ".toList ++ path ++ ": ".toList ++
      Text.join ", ".toList (names.map String.toList)
  | truthValue setting value =>
    setting.shown ++ " must be an integer, got ".toList ++
      (if value then "True" else "False").toList
  | wrongKind setting expected found =>
    setting.shown ++ " must be of type ".toList ++ expected.toList ++ ", got ".toList ++
      found.toList
  | notStrings setting => setting.shown ++ " must be a list of strings".toList
  | negativeDepth depth =>
    Setting.maxBraceDepth.shown ++ " must be >= 0, got ".toList ++ Text.decimalInt depth
  | unknownLevel given => "Unknown log level: ".toList ++ given.quoted
  | depthNotInteger given =>
    "TEMPLIGHT_MAX_BRACE_DEPTH must be an integer, got ".toList ++ given.quoted

namespace Setting

/-- A value that has to be a string. -/
def text (setting : Setting) : Toml.Value → Except ConfigError Text
  | .string text => .ok text
  | value => .error (.wrongKind setting "str" value.typeName)

/-- An item of a list of strings. -/
def item? : Toml.Value → Option String
  | .string text => some (String.ofList text)
  | _ => none

/-- A value that has to be a list of strings. -/
def strings (setting : Setting) : Toml.Value → Except ConfigError (List String)
  | .array items =>
    match items.mapM item? with
    | some strings => .ok strings
    | none => .error (.notStrings setting)
  | value => .error (.wrongKind setting "list" value.typeName)

/-- A brace depth, which must not be negative. -/
def checkedDepth (depth : Int) : Except ConfigError Int :=
  if depth < 0 then .error (.negativeDepth depth) else .ok depth

/-- A value that has to be a brace depth. -/
def depth : Toml.Value → Except ConfigError Int
  | .integer depth => checkedDepth depth
  | .bool value => .error (.truthValue maxBraceDepth value)
  | value => .error (.wrongKind maxBraceDepth "int" value.typeName)

/-- The capital of an ASCII letter, and of the two other letters that have an ASCII capital. -/
def capital (c : Char) : Char :=
  if c = 'ı' then 'I' else if c = 'ſ' then 'S' else c.toUpper

/-- The names of log levels. -/
def levelNames : List String :=
  ["CRITICAL", "FATAL", "ERROR", "WARN", "WARNING", "INFO", "DEBUG", "NOTSET"]

/-- The log level of a name, which may be written in small letters. -/
def checkedLevel (given : Text) : Except ConfigError String :=
  let name := String.ofList (given.map capital)
  if name ∈ levelNames then .ok name else .error (.unknownLevel given)

end Setting

namespace Config

/-- The configuration with one setting changed to a value. -/
def set (config : Config) (setting : Setting) (value : Toml.Value) : Except ConfigError Config :=
  match setting with
  | .language =>
    (setting.text value).map fun text => { config with language := String.ofList text }
  | .markupGrammar =>
    (setting.text value).map fun text => { config with markupGrammar := String.ofList text }
  | .scriptGrammar =>
    (setting.text value).map fun text => { config with scriptGrammar := String.ofList text }
  | .extraKeywords =>
    (setting.strings value).map fun words => { config with extraKeywords := words }
  | .maxBraceDepth =>
    (Setting.depth value).map fun depth => { config with maxBraceDepth := depth }
  | .watchExtensions =>
    (setting.strings value).map fun names => { config with watchExtensions := nameSet names }
  | .ignoreDirs =>
    (setting.strings value).map fun names => { config with ignoreDirs := nameSet names }
  | .logLevel => do
    let level ← Setting.checkedLevel (← setting.text value)
    return { config with logLevel := level }

/-- The configuration with the entries of a table of settings. Entries that are no settings are left
out; they have been reported before. -/
def setAll (config : Config) : Pairs Toml.Value → Except ConfigError Config
  | [] => .ok config
  | (name, value) :: more =>
    match Setting.ofName? name with
    | some setting => do setAll (← config.set setting value) more
    | none => setAll config more

/-- The configuration of a TOML document that was read from a file. -/
def ofDocument (path : Text) (document : Pairs Toml.Value) : Except ConfigError Config :=
  match Pairs.get? "templight" document with
  | none => .ok {}
  | some (.table entries) =>
    let unknown := (Pairs.names entries).filter fun name => (Setting.ofName? name).isNone
    if unknown.isEmpty then setAll {} entries
    else .error (.unknownSettings path (nameSet unknown))
  | some _ => .error (.notTable path)

/-- The variable of the brace depth. -/
def depthVariable : String := "TEMPLIGHT_MAX_BRACE_DEPTH"

/-- The variable of the log level. -/
def levelVariable : String := "TEMPLIGHT_LOG_LEVEL"

/-- The names of the variables that set something. -/
def environmentNames : List String := [depthVariable, levelVariable]

/-- The brace depth that the environment sets. -/
def depthOf (environment : Pairs Text) : Except ConfigError (Option Int) :=
  match Pairs.get? depthVariable environment with
  | none => .ok none
  | some given =>
    match given.integer? with
    | some depth => (Setting.checkedDepth depth).map some
    | none => .error (.depthNotInteger given)

/-- The log level that the environment sets. -/
def levelOf (environment : Pairs Text) : Except ConfigError (Option String) :=
  match Pairs.get? levelVariable environment with
  | none => .ok none
  | some given => (Setting.checkedLevel given).map some

/-- The configuration with what the environment sets in place of its own. -/
def withEnvironment (config : Config) (environment : Pairs Text) : Except ConfigError Config := do
  let depth ← depthOf environment
  let level ← levelOf environment
  return { config with
    maxBraceDepth := depth.getD config.maxBraceDepth
    logLevel := level.getD config.logLevel }

end Config

end TemplHighlight
