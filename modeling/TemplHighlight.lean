import TemplHighlight.Command.Arguments
import TemplHighlight.Command.Basic
import TemplHighlight.Command.Run
import TemplHighlight.Config.Basic
import TemplHighlight.Config.Load
import TemplHighlight.Config.Setting
import TemplHighlight.Digest.Md5
import TemplHighlight.Failure
import TemplHighlight.Files.Disk
import TemplHighlight.Files.Path
import TemplHighlight.Grammar.Clike
import TemplHighlight.Grammar.Compose
import TemplHighlight.Grammar.Go
import TemplHighlight.Grammar.Markup
import TemplHighlight.Grammar.Pattern
import TemplHighlight.Grammar.Place
import TemplHighlight.Grammar.RuleSet
import TemplHighlight.Grammar.Split
import TemplHighlight.Json.Basic
import TemplHighlight.Json.Parser
import TemplHighlight.Json.Printer
import TemplHighlight.Log
import TemplHighlight.Main
import TemplHighlight.Markup.Braces
import TemplHighlight.Markup.Space
import TemplHighlight.Markup.Spread
import TemplHighlight.Markup.Tag
import TemplHighlight.Number.Binary64
import TemplHighlight.Pairs
import TemplHighlight.Proofs.Outcome
import TemplHighlight.Proofs.Pattern.Answers
import TemplHighlight.Proofs.Pattern.Reach
import TemplHighlight.Proofs.Pattern.Start
import TemplHighlight.Proofs.Split.Front
import TemplHighlight.Proofs.Split.Lossless
import TemplHighlight.Proofs.Split.Rules
import TemplHighlight.Proofs.Split.Steps
import TemplHighlight.Proofs.Split.Total
import TemplHighlight.Proofs.TagBody.Idempotent
import TemplHighlight.Proofs.TagBody.Runs
import TemplHighlight.Proofs.TagLanguage.Exact
import TemplHighlight.Proofs.TagLanguage.Groups
import TemplHighlight.Proofs.TagLanguage.Leaves
import TemplHighlight.Proofs.TagLanguage.Scan
import TemplHighlight.Proofs.TagLanguage.Syntax
import TemplHighlight.Proofs.Templ.Rules
import TemplHighlight.Proofs.Templ.TagReading
import TemplHighlight.Proofs.Templ.TagStart
import TemplHighlight.Proofs.Templ.TagToken
import TemplHighlight.Proofs.Templ.Total
import TemplHighlight.Proofs.Text.Classes
import TemplHighlight.Regex.Basic
import TemplHighlight.Regex.Match
import TemplHighlight.Regex.Words
import TemplHighlight.Registry
import TemplHighlight.Session
import TemplHighlight.Site.Basic
import TemplHighlight.Site.Build
import TemplHighlight.Site.Cache
import TemplHighlight.Text.Basic
import TemplHighlight.Text.CharClass
import TemplHighlight.Text.CharTable
import TemplHighlight.Text.Integer
import TemplHighlight.Text.Quoted
import TemplHighlight.Text.Utf8
import TemplHighlight.Token.Dump
import TemplHighlight.Token.Html
import TemplHighlight.Token.Kind
import TemplHighlight.Token.TagBody
import TemplHighlight.Token.Tree
import TemplHighlight.Toml.Basic
import TemplHighlight.Toml.Parser
import TemplHighlight.Toml.Scalar
import TemplHighlight.Watch.Debounce
import TemplHighlight.Watch.Handler
import TemplHighlight.Watch.Watching
import TemplHighlight.Proofs.TagBody.Blocks
import TemplHighlight.Proofs.Templ.TagHead
import TemplHighlight.Proofs.Pattern.Leftmost
import TemplHighlight.Proofs.Split.Parts
import TemplHighlight.Proofs.Templ.TagParts
import TemplHighlight.Proofs.Templ.TagRules
import TemplHighlight.Proofs.Templ.TagContents
import TemplHighlight.Proofs.Split.Retrace
import TemplHighlight.Proofs.Pattern.Passed
import TemplHighlight.Proofs.Document.Syntax
import TemplHighlight.Proofs.Document.Tokens
import TemplHighlight.Proofs.Document.Layout
import TemplHighlight.Proofs.Document.Law
import TemplHighlight.Proofs.Registry.Shipped
import TemplHighlight.Proofs.Split.Origins
import TemplHighlight.Proofs.TagBody.Kept
import TemplHighlight.Proofs.Pattern.Whole
import TemplHighlight.Proofs.Templ.WholeTokens
import TemplHighlight.Proofs.Text.Leads
import TemplHighlight.Proofs.Html.Reader
import TemplHighlight.Proofs.Html.Decoded
import TemplHighlight.Proofs.Split.Idle
import TemplHighlight.Proofs.Split.Calls
import TemplHighlight.Proofs.Templ.Conservative
import TemplHighlight.Proofs.Templ.Nesting
import TemplHighlight.Proofs.Templ.Recomposed
import TemplHighlight.Proofs.TagBody.Preserved
import TemplHighlight.Proofs.TagBody.Elements
import TemplHighlight.Proofs.Split.Places
import TemplHighlight.Proofs.Templ.TagSurvival
import TemplHighlight.Proofs.Files.Disk
import TemplHighlight.Proofs.Files.Changes
import TemplHighlight.Proofs.Site.Tasks
import TemplHighlight.Proofs.Files.Reaches
import TemplHighlight.Proofs.Site.Layout
import TemplHighlight.Proofs.Site.Paths
import TemplHighlight.Proofs.Site.Records
import TemplHighlight.Proofs.Site.Building
import TemplHighlight.Proofs.Site.Events
import TemplHighlight.Proofs.Site.Fresh
import TemplHighlight.Proofs.Site.Rules
import TemplHighlight.Proofs.Watch.Configurations
import TemplHighlight.Proofs.Watch.Debouncing
import TemplHighlight.Proofs.Json.Texts
import TemplHighlight.Proofs.Json.Tables
import TemplHighlight.Proofs.Text.Ascii
import TemplHighlight.Proofs.Site.Rendering
import TemplHighlight.Proofs.Site.Opening
import TemplHighlight.Proofs.Site.Visits
import TemplHighlight.Proofs.Site.Runs
import TemplHighlight.Proofs.Site.Restarts
import TemplHighlight.Proofs.Site.Reruns
import TemplHighlight.Proofs.Registry.Installing
import TemplHighlight.Proofs.Site.Reloading
import TemplHighlight.Proofs.Site.Outcomes
import TemplHighlight.Proofs.Site.AnyCache
import TemplHighlight.Proofs.Site.Stumbling
import TemplHighlight.Proofs.Registry.Runs
import TemplHighlight.Proofs.Registry.Composing
import TemplHighlight.Proofs.Registry.Histories
import TemplHighlight.Proofs.Registry.Recomposing
import TemplHighlight.Proofs.Toml.Distinct
import TemplHighlight.Proofs.Config.Settings
import TemplHighlight.Proofs.Config.Loading
import TemplHighlight.Proofs.Config.Refusals
import TemplHighlight.Proofs.TagLanguage.Nesting
import TemplHighlight.Proofs.Pattern.Depth
import TemplHighlight.Proofs.Files.Resolve
import TemplHighlight.Proofs.Files.Making
import TemplHighlight.Proofs.Files.Causes
import TemplHighlight.Proofs.Watch.Relevance
import TemplHighlight.Proofs.Watch.Rebuilding
import TemplHighlight.Proofs.Watch.Surviving
import TemplHighlight.Proofs.Split.Overlay
import TemplHighlight.Proofs.Split.Flags
import TemplHighlight.Proofs.Words.Standing
import TemplHighlight.Proofs.Words.Runs
import TemplHighlight.Proofs.Words.Kept
import TemplHighlight.Proofs.Grammar.Inserting
import TemplHighlight.Proofs.Grammar.Extending
import TemplHighlight.Proofs.Grammar.Layered
import TemplHighlight.Proofs.Grammar.Arranged
import TemplHighlight.Proofs.Words.Longest
import TemplHighlight.Proofs.Grammar.Chains
import TemplHighlight.Proofs.Split.Rooted
import TemplHighlight.Proofs.Token.Bare
import TemplHighlight.Proofs.Token.Dumped
import TemplHighlight.Proofs.Token.Store
import TemplHighlight.Proofs.Token.Hashing
import TemplHighlight.Proofs.Page.Reader
import TemplHighlight.Proofs.Page.Structure
import TemplHighlight.Proofs.Split.GreedyLoop
