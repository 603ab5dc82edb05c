/-!
# Configuration

What can be set: the language to install and the grammars that it is made of, further keywords, how
deep brace groups may be nested, which files are sources, and how much is logged.
-/

namespace TemplHighlight

/-- The different names of a list in the order of their characters: the form in which a set of names
is kept, so that equal sets are equal. -/
def nameSet (names : List String) : List String :=
  names.eraseDups.mergeSort fun a b => decide (a ≤ b)

/-- A configuration. -/
structure Config where
  /-- The language that the composed grammar is installed for. -/
  language : String := "templ"
  /-- The grammar of the markup part. -/
  markupGrammar : String := "markup"
  /-- The grammar of the script part. -/
  scriptGrammar : String := "go"
  /-- The words that are keywords besides those of the script part. -/
  extraKeywords : List String := ["templ", "css", "script"]
  /-- How many levels of groups a brace group inside a tag may hold. -/
  maxBraceDepth : Int := 2
  /-- The extensions of source files. -/
  watchExtensions : List String := [".templ"]
  /-- The names of directories without sources. -/
  ignoreDirs : List String :=
    [".git", ".idea", ".vscode", "__pycache__", "build", "node_modules"]
  /-- The name of the level from which on messages are logged. -/
  logLevel : String := "WARNING"
  /-- The file that the configuration was read from. -/
  source : Option String := none

namespace Config

/-- Equality of configurations; where they were read from does not count. -/
def same (a b : Config) : Bool :=
  a.language == b.language && a.markupGrammar == b.markupGrammar &&
    a.scriptGrammar == b.scriptGrammar && a.extraKeywords == b.extraKeywords &&
    a.maxBraceDepth == b.maxBraceDepth && a.watchExtensions == b.watchExtensions &&
    a.ignoreDirs == b.ignoreDirs && a.logLevel == b.logLevel

end Config

end TemplHighlight
