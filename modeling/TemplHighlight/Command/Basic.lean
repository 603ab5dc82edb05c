import TemplHighlight.Command.Arguments

/-!
# Commands

What can be asked for on the command line: to highlight a file, to build the pages of a directory,
to go on building them as the sources change, and to say which version this is.
-/

namespace TemplHighlight

/-- The form in which a highlighted file is written. -/
inductive OutputForm where
  | html
  | json
  deriving DecidableEq

/-- What a command does. -/
inductive Action where
  | highlight (file : Text) (output : Option Text) (form : OutputForm)
  | build (directory : Text) (force : Bool)
  | watch (directory : Text)
  | version
  deriving DecidableEq

/-- A command. -/
structure Command where
  /-- The configuration file, or the directory of one. -/
  config : Option Text
  /-- Whether everything is logged, whatever the configuration says. -/
  verbose : Bool
  action : Action
  deriving DecidableEq

/-- What is asked for on a command line. -/
inductive Request where
  | help
  | misuse
  | command (command : Command)
  deriving DecidableEq

namespace Command

/-- The flag that every command takes. -/
def helpFlag : Flag := ⟨some 'h', "help".toList, .help⟩

/-- What stands in front of the name of an action. -/
def usage : Usage where
  flags := [helpFlag, ⟨none, "config".toList, .value none⟩, ⟨some 'v', "verbose".toList, .switch⟩]
  operand := .command

/-- What follows the name of each action. -/
def usages : List (String × Usage) := [
  ("highlight", {
    flags := [helpFlag, ⟨some 'o', "output".toList, .value none⟩,
      ⟨none, "format".toList, .value (some ["html".toList, "json".toList])⟩]
    operand := .required }),
  ("build", {
    flags := [helpFlag, ⟨none, "force".toList, .switch⟩]
    operand := .optional }),
  ("watch", { flags := [helpFlag], operand := .optional }),
  ("version", { flags := [helpFlag], operand := .none })]

/-- The action of a name with its arguments. -/
def actionOf? (name : Text) (given : Given) : Option Action :=
  let directory := given.operand.getD ['.']
  match String.ofList name with
  | "highlight" =>
    given.operand.map fun file =>
      .highlight file (given.value? "output")
        (if given.value? "format" = some "json".toList then .json else .html)
  | "build" => some (.build directory (given.has "force"))
  | "watch" => some (.watch directory)
  | "version" => some .version
  | _ => none

/-- What is asked for with arguments. -/
def parse (texts : List Text) : Request :=
  match usage.read texts with
  | .help => .help
  | .misuse | .given _ [] => .misuse
  | .given given (name :: more) =>
    match usages.lookup (String.ofList name) with
    | none => .misuse
    | some usage =>
      match usage.read more with
      | .help => .help
      | .misuse => .misuse
      | .given own _ =>
        if given.extra || own.extra then .misuse
        else match actionOf? name own with
          | some action => .command {
              config := given.value? "config", verbose := given.has "verbose", action }
          | none => .misuse

end Command

end TemplHighlight
