import TemplHighlight.Config.Setting
import TemplHighlight.Files.Disk
import TemplHighlight.Registry

/-!
# Failures

What can go wrong while a command works with files, configurations and grammars. Some failures are
reported in words of this library, the others as they came up.
-/

namespace TemplHighlight

/-- Why a command could not go on. -/
inductive Failure where
  /-- A file or directory could not be read or written. -/
  | file (error : FileError)
  /-- A file that has to be text is not. -/
  | undecodable
  /-- There is no configuration. -/
  | config (error : ConfigError)
  /-- A configuration file holds a number that is too long to be read. -/
  | hugeInteger
  /-- A text could not be highlighted. -/
  | highlight (error : HighlightError)
  /-- A source is not below the directory of the sources. -/
  | outside (source : Text)
  /-- Nothing can be looked up in a build cache that is no table. -/
  | cacheLookup
  /-- Nothing can be put into a build cache that is no table. -/
  | cacheUpdate
  /-- A path without a character. -/
  | emptyPath
  deriving DecidableEq

namespace Failure

/-- The words for the failures that a command reports and then ends with. -/
def report? : Failure → Option Text
  | config error => some error.message
  | highlight (.compose (.missing grammar detail)) => some (missingGrammarMessage grammar detail)
  | _ => none

/-- The words for any failure. -/
def describe (failure : Failure) : Text :=
  match failure, failure.report? with
  | _, some words => words
  | file error, none => error.message
  | undecodable, none => "a file that has to be text is not UTF-8".toList
  | highlight error, none => error.message?.getD "a grammar cannot be used".toList
  | hugeInteger, none => "a number in a configuration file is too long".toList
  | outside source, none => source ++ " is not below the directory of the sources".toList
  | cacheLookup, none | cacheUpdate, none => "the build cache is no table".toList
  | emptyPath, none => "no path".toList
  | config error, none => error.message

end Failure

end TemplHighlight
