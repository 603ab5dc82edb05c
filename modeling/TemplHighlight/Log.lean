import TemplHighlight.Text.Basic

/-!
# Log messages

Operations that report what they do return their messages along with their result.
-/

namespace TemplHighlight

/-- How much a message matters. -/
inductive LogLevel where
  | debug
  | warning
  | error
  deriving DecidableEq

/-- The name of a level. -/
def LogLevel.name : LogLevel → String
  | debug => "DEBUG"
  | warning => "WARNING"
  | error => "ERROR"

/-- The weight of a level. -/
def LogLevel.weight : LogLevel → Nat
  | debug => 10
  | warning => 30
  | error => 40

/-- A message with its level. -/
structure LogMessage where
  level : LogLevel
  text : Text
  deriving DecidableEq

/-- A message as one line. -/
def LogMessage.line (message : LogMessage) : Text :=
  message.level.name.toList ++ ' ' :: message.text

/-- The weight that a message needs to be shown, by the name of a level. -/
def leastWeight (level : String) : Nat :=
  match level with
  | "CRITICAL" => 50
  | "ERROR" => 40
  | "WARNING" => 30
  | "INFO" => 20
  | "DEBUG" => 10
  | _ => 0

/-- Whether a message is shown at a level. -/
def LogMessage.isShownAt (message : LogMessage) (level : String) : Bool :=
  leastWeight level ≤ message.level.weight

/-- Messages in the order in which they came up. -/
abbrev Log := List LogMessage

end TemplHighlight
