import TemplHighlight.Text.CharClass
import TemplHighlight.Text.Basic

/-!
# Command-line arguments

Arguments are flags, with one dash and a letter or two dashes and a word, and operands. A word may
be shortened as long as it means one flag only; letters may share a dash, and an equals sign behind
the first of them does not count. A flag's value is the next argument, or stands in the same one:
right behind the letter, or behind an equals sign. Behind the argument `--` everything is an
operand.

Flags count in the order in which they stand: the request for help is answered as soon as it is
reached, whatever follows it, and so is a flag without the value that it needs.
-/

namespace TemplHighlight

/-- What a flag does. -/
inductive FlagKind where
  /-- Asks for help. -/
  | help
  /-- Is given or not. -/
  | switch
  /-- Takes a value, which may have to be one of some choices. -/
  | value (choices : Option (List Text))
  deriving DecidableEq

/-- A flag. -/
structure Flag where
  letter : Option Char
  word : Text
  kind : FlagKind
  deriving DecidableEq

/-- Whether a flag takes a value. -/
def Flag.takesValue (flag : Flag) : Bool :=
  match flag.kind with
  | .value _ => true
  | _ => false

/-- The operand that a command takes. -/
inductive Operand where
  | none
  | required
  | optional
  /-- Another command with arguments of its own: everything that follows. -/
  | command
  deriving DecidableEq

/-- The arguments that a command takes. -/
structure Usage where
  flags : List Flag
  operand : Operand

/-- An argument by its looks. -/
inductive Argument where
  | plain (text : Text)
  /-- The first `--`. -/
  | ending
  /-- A flag, and what stands behind it in the same argument: its value, or further letters. -/
  | flag (flag : Flag) (behind : Option Text)
  /-- A flag with a value that it does not take. -/
  | excess
  /-- Something that looks like a flag, but is none. -/
  | unknown (text : Text)

/-- What the arguments so far have given. -/
structure Given where
  flags : List (Flag × Text) := []
  operand : Option Text := none
  /-- Whether there were arguments that the command does not take. -/
  extra : Bool := false

/-- What arguments come to. -/
inductive Reading where
  /-- Help is asked for. -/
  | help
  /-- They do not fit. -/
  | misuse
  /-- What was given, and the arguments from the name of another command on. -/
  | given (given : Given) (command : List Text)

namespace Given

/-- The value that a flag was given last. -/
def value? (given : Given) (word : String) : Option Text :=
  (given.flags.reverse.find? fun entry => entry.1.word = word.toList).map (·.2)

/-- Whether a flag was given. -/
def has (given : Given) (word : String) : Bool := (given.value? word).isSome

end Given

namespace Usage

/-- The flag of a letter. -/
def ofLetter? (usage : Usage) (letter : Char) : Option Flag :=
  usage.flags.find? (·.letter = some letter)

/-- Whether an argument is a negative number, and so no flag. -/
def isNegativeNumber (text : Text) : Bool :=
  match text with
  | '-' :: number =>
    let number := if number.getLast? = some '\n' then number.dropLast else number
    let behind := number.dropWhile CharClass.isDigit
    match behind with
    | [] => !number.isEmpty
    | '.' :: decimals => !decimals.isEmpty && decimals.all CharClass.isDigit
    | _ => false
  | _ => false

/-- The looks of an argument that starts with a dash but is no flag. -/
def ofStranger (text : Text) : Argument :=
  if isNegativeNumber text || text.contains ' ' then .plain text else .unknown text

/-- The looks of a flag's word, with what stands behind it from an equals sign on. -/
def ofWord (flag : Flag) : (behind : Text) → Argument
  | _ :: value => if flag.takesValue then .flag flag (some value) else .excess
  | [] => .flag flag none

/-- The looks of a flag's letter, with what stands behind it. -/
def ofLetter (flag : Flag) : (behind : Text) → Argument
  | [] => .flag flag none
  | '=' :: behind =>
    if behind.isEmpty && !flag.takesValue then .excess else .flag flag (some behind)
  | behind => .flag flag (some behind)

/-- The looks of an argument in front of the ending; there is nothing to see if it may mean several
flags. -/
def argument? (usage : Usage) (text : Text) : Option Argument :=
  match text with
  | '-' :: '-' :: rest =>
    let word := rest.takeWhile (· != '=')
    let behind := rest.dropWhile (· != '=')
    match usage.flags.find? (·.word = word) with
    | some flag => some (ofWord flag behind)
    | none =>
      match usage.flags.filter fun flag => word.isPrefixOf flag.word with
      | [] => some (ofStranger text)
      | [flag] => some (ofWord flag behind)
      | _ => none
  | '-' :: letter :: behind =>
    match usage.ofLetter? letter with
    | some flag => some (ofLetter flag behind)
    | none => some (ofStranger text)
  | _ => some (.plain text)

/-- The looks of arguments, each with the text of it. -/
def arguments? (usage : Usage) : List Text → Option (List (Text × Argument))
  | [] => some []
  | text :: more =>
    if text = ['-', '-'] then
      some ((text, .ending) :: more.map fun text => (text, .plain text))
    else do
      let argument ← usage.argument? text
      return (text, argument) :: (← arguments? usage more)

/-- The flags in one argument. -/
structure Cluster where
  /-- The flags that have all they need. -/
  complete : List (Flag × Text) := []
  /-- The last flag, if it still needs a value. -/
  open? : Option Flag := none

/-- The flags in one argument, from a flag on that has letters behind it. There are none if one of
the letters is no flag. -/
def letters? (usage : Usage) (flag : Flag) : (behind : Text) → Option Cluster
  | [] => some (if flag.takesValue then { open? := some flag } else { complete := [(flag, [])] })
  | letter :: behind =>
    if flag.takesValue then some { complete := [(flag, letter :: behind)] }
    else do
      let next ← usage.ofLetter? letter
      let cluster ← letters? usage next behind
      return { cluster with complete := (flag, []) :: cluster.complete }

/-- The flags in one argument, from a flag on and what stands behind it. -/
def cluster? (usage : Usage) (flag : Flag) : (behind : Option Text) → Option Cluster
  | none => usage.letters? flag []
  | some behind =>
    if flag.takesValue then some { complete := [(flag, behind)] }
    else usage.letters? flag behind

/-- Takes flags over. Gives what the arguments come to, if that is decided with one of the flags. -/
def takeFlags (given : Given) : List (Flag × Text) → Except Reading Given
  | [] => .ok given
  | (flag, value) :: more =>
    let taken := takeFlags { given with flags := given.flags ++ [(flag, value)] } more
    match flag.kind with
    | .help => .error .help
    | .switch => taken
    | .value none => taken
    | .value (some choices) => if value ∈ choices then taken else .error .misuse

/-- What arguments come to when there are no more. -/
def finish (operand : Operand) (given : Given) : Reading :=
  match operand with
  | .required | .command => .misuse
  | .none | .optional => .given given []

/-- What arguments come to behind the ending. -/
def finishEnded (operand : Operand) (given : Given) (texts : List Text) : Reading :=
  match operand, texts with
  | .command, _ => .misuse
  | .none, _ => finish .none { given with extra := true }
  | operand, [] => finish operand given
  | _, text :: more =>
    finish .none { given with operand := some text, extra := given.extra || !more.isEmpty }

/-- What arguments come to, with the operand that is still to be taken and what was given so far. -/
def readFrom (usage : Usage) (operand : Operand) (given : Given) :
    List (Text × Argument) → Reading
  | [] => finish operand given
  | (_, .ending) :: rest => finishEnded operand given (rest.map (·.1))
  | (_, .unknown _) :: rest => readFrom usage operand { given with extra := true } rest
  | (text, .plain _) :: rest =>
    match operand with
    | .none => readFrom usage .none { given with extra := true } rest
    | .command => .given given (text :: rest.map (·.1))
    | .required | .optional =>
      let given := { given with operand := some text }
      match rest with
      | (_, .ending) :: more => finish .none { given with extra := given.extra || !more.isEmpty }
      | rest => readFrom usage .none given rest
  | (_, .excess) :: _ => .misuse
  | (_, .flag flag behind) :: rest =>
    match usage.cluster? flag behind with
    | none => .misuse
    | some cluster =>
      match cluster.open? with
      | none =>
        match takeFlags given cluster.complete with
        | .error reading => reading
        | .ok given => readFrom usage operand given rest
      | some last =>
        match rest with
        | (value, .plain _) :: rest =>
          match takeFlags given (cluster.complete ++ [(last, value)]) with
          | .error reading => reading
          | .ok given => readFrom usage operand given rest
        | _ => .misuse

/-- What arguments come to. -/
def read (usage : Usage) (texts : List Text) : Reading :=
  match usage.arguments? texts with
  | some arguments => readFrom usage usage.operand {} arguments
  | none => .misuse

end Usage

end TemplHighlight
