import TemplHighlight.Config.Basic
import TemplHighlight.Grammar.Compose
import TemplHighlight.Grammar.Go
import TemplHighlight.Grammar.Split
import TemplHighlight.Log
import TemplHighlight.Text.Quoted
import TemplHighlight.Token.TagBody

/-!
# The registry

A registry holds the installed grammars by language, in the order in which the languages first came
in, and the hooks that work over the tokens of a text. A new registry holds the base grammars;
`installTempl` composes the templ grammar from what is installed and adds the hook that turns the
text of tag bodies into plain text. An operation that fails leaves the registry as it was.
-/

namespace TemplHighlight

/-- Why a text could not be highlighted. -/
inductive HighlightError where
  /-- A grammar is missing or could not be composed. -/
  | compose (error : ComposeError)
  /-- A text could not be split. -/
  | split (error : SplitError)
  deriving DecidableEq

/-- The words for the errors that come with an explanation. -/
def HighlightError.message? : HighlightError → Option Text
  | compose error => error.message?
  | split error => error.message?

/-- The report of something other than a rule set that was to be installed. -/
def notRuleSetMessage (language found : String) : Text :=
  "Expected a RuleSet for '".toList ++ language.toList ++ "', got ".toList ++ found.toList

/-- What hooks see and change: a text, its language and grammar, and its tokens. -/
structure HookContext where
  code : Option Text
  language : Option String
  grammar : Option RuleSet
  tokens : List Tree

/-- A hook. -/
inductive Hook where
  /-- Turns the text of tag bodies into plain text, in the tokens of one language. -/
  | plainText (language : String)
  /-- Any other change, known by the form in which it is shown. -/
  | custom (shown : Text) (change : HookContext → HookContext)

namespace Hook

/-- Whether two hooks are the same. -/
def same : Hook → Hook → Bool
  | plainText a, plainText b => a == b
  | custom a _, custom b _ => a == b
  | _, _ => false

/-- The form in which a hook is shown in messages. -/
def shown : Hook → Text
  | plainText language => "RewriteHook(".toList ++ Text.quoted language.toList ++ [')']
  | custom shown _ => shown

/-- Lets the hook do its work. -/
def apply : Hook → HookContext → HookContext
  | plainText language, context =>
    if context.language = some language then
      { context with tokens := TagBody.mark context.tokens }
    else context
  | custom _ change, context => change context

end Hook

/-- A grammar in a registry. Each installation of a new grammar has a number of its own, by which
one can tell whether a language still has the grammar that it had. -/
structure Installed where
  grammar : RuleSet
  number : Nat

/-- A registry. -/
structure Registry where
  grammars : Pairs Installed
  /-- The hooks by event, in the order in which they were added. -/
  hooks : Pairs (List Hook)
  /-- The number for the next new grammar. -/
  nextNumber : Nat

namespace Registry

/-- The event after a text was split. -/
def afterTokenize : String := "after-tokenize"

/-- The registry of a list of languages with their grammars. -/
def ofList (grammars : List (String × RuleSet)) : Registry :=
  ⟨Pairs.ofList (grammars.zipIdx.map fun ((language, grammar), number) =>
    (language, ⟨grammar, number⟩)), [], grammars.length⟩

/-- The registry of the base grammars. -/
def base : Registry := ofList [("markup", Grammar.markup), ("go", Grammar.go)]

/-- The languages, in the order in which they were first installed. -/
def languages (registry : Registry) : List String := Pairs.names registry.grammars

/-- The grammar of a language. -/
def find? (registry : Registry) (language : String) : Option RuleSet :=
  (Pairs.get? language registry.grammars).map (·.grammar)

/-- The grammar of a language that is needed. -/
def get (registry : Registry) (language : String) : Except HighlightError RuleSet :=
  match registry.find? language with
  | some grammar => .ok grammar
  | none => .error (.compose (.missing language none))

/-- Installs a grammar that is or was installed already, under the number it has. -/
def install (registry : Registry) (language : String) (installed : Installed) : Registry × Log :=
  let verb := if Pairs.has language registry.grammars then "Replaced" else "Registered"
  ({ registry with grammars := Pairs.put language installed registry.grammars },
    [⟨.debug, verb.toList ++ " grammar '".toList ++ language.toList ++ "'".toList⟩])

/-- Installs a new grammar for a language. -/
def register (registry : Registry) (language : String) (grammar : RuleSet) : Registry × Log :=
  install { registry with nextNumber := registry.nextNumber + 1 } language
    ⟨grammar, registry.nextNumber⟩

/-- The hooks of an event. -/
def hooksOf (registry : Registry) (event : String) : List Hook :=
  (Pairs.get? event registry.hooks).getD []

/-- Adds a hook to an event, unless the event has the same hook already. Says whether it was
added. -/
def addHook (registry : Registry) (event : String) (hook : Hook) : Bool × Registry × Log :=
  if (registry.hooksOf event).any hook.same then (false, registry, [])
  else
    (true,
      { registry with hooks := Pairs.put event (registry.hooksOf event ++ [hook]) registry.hooks },
      [⟨.debug, "Added ".toList ++ event.toList ++ " hook ".toList ++ hook.shown⟩])

/-- Lets the hooks of an event work, one after the other. -/
def runHooks (registry : Registry) (event : String) (context : HookContext) : HookContext :=
  (registry.hooksOf event).foldl (fun context hook => hook.apply context) context

/-- Splits a text with the grammar of a language. -/
def tokenize (registry : Registry) (text : Text) (language : String) :
    Except HighlightError (List Tree) := do
  match (← registry.get language).tokenize text with
  | .ok tokens => return tokens
  | .error error => throw (.split error)

/-- Splits a text with the grammar of a language and lets the hooks work over the tokens. -/
def highlight (registry : Registry) (text : Text) (language : String) :
    Except HighlightError (List Tree) := do
  let grammar ← registry.get language
  let tokens ← registry.tokenize text language
  return (registry.runHooks afterTokenize ⟨some text, some language, some grammar, tokens⟩).tokens

/-- The templ grammar of a configuration, composed from the installed grammars. -/
def composeTempl (registry : Registry) (config : Config) : Except HighlightError RuleSet := do
  let markup ← registry.get config.markupGrammar
  let script ← registry.get config.scriptGrammar
  let composed : Except ComposeError RuleSet := do
    let script ← Grammar.extendKeywords (.to script) (config.extraKeywords.map String.toList)
      config.scriptGrammar
    Grammar.compose (.to markup) (.to script) config.maxBraceDepth
  match composed with
  | .ok grammar => return grammar
  | .error error => throw (.compose error)

end Registry

/-- A registry that is worked on, and the messages that were logged meanwhile. -/
structure LoggedRegistry where
  registry : Registry
  logged : Log := []

/-- Work on a registry. What was done before a failure stays done. -/
abbrev RegistryTask := EStateM HighlightError LoggedRegistry

namespace RegistryTask

/-- Ends with the error or goes on with the result. -/
def ofExcept {α : Type} : Except HighlightError α → RegistryTask α
  | .ok value => pure value
  | .error error => throw error

/-- Logs messages. -/
def logAll (messages : Log) : RegistryTask Unit :=
  modify fun state => { state with logged := state.logged ++ messages }

/-- Installs a new grammar for a language. -/
def register (language : String) (grammar : RuleSet) : RegistryTask Unit := do
  let (registry, log) := (← get).registry.register language grammar
  modify fun state => { state with registry }
  logAll log

/-- Adds a hook to an event, unless the event has the same hook already. Says whether it was
added. -/
def addHook (event : String) (hook : Hook) : RegistryTask Bool := do
  let (added, registry, log) := (← get).registry.addHook event hook
  modify fun state => { state with registry }
  logAll log
  return added

/-- Composes the templ grammar of a configuration from the installed grammars, installs it, and adds
the hook for the text of tag bodies. -/
def installTempl (config : Config) : RegistryTask RuleSet := do
  let grammar ← ofExcept ((← get).registry.composeTempl config)
  register config.language grammar
  if ← addHook Registry.afterTokenize (.plainText config.language) then
    logAll [⟨.debug,
      "Installed plain-text rewrite for '".toList ++ config.language.toList ++ "'".toList⟩]
  return grammar

end RegistryTask

namespace Registry

/-- The registry with the templ grammar of a configuration, and the hook for the text of tag
bodies. -/
def installTempl (registry : Registry) (config : Config) :
    Except HighlightError (Registry × Log) :=
  match RegistryTask.installTempl config { registry } with
  | .ok _ state => .ok (state.registry, state.logged)
  | .error error _ => .error error

/-- A registry of the base grammars and the templ grammar of a configuration. -/
def create (config : Config) : Except HighlightError (Registry × Log) := base.installTempl config

end Registry

end TemplHighlight
