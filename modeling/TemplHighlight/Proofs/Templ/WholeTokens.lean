import TemplHighlight.Proofs.Pattern.First
import TemplHighlight.Proofs.Registry.Shipped
import TemplHighlight.Proofs.TagBody.Kept

/-!
# Tags, spreads and scripts are whole

The rules that make tokens of tags, of spreads and of brace groups find them with scanners, and no
other rule makes tokens of these kinds. A scanner accepts what it has found also by itself. So the
text of every such token is a complete tag, a complete spread, or an equals sign and a complete
brace group, wherever in a text or in another token it was found, and whatever later rules have cut
around it.
-/

namespace TemplHighlight.Templ

open Split TagBody

/-- The text of a token of a kind is complete: a whole tag, a whole spread, an equals sign and one
whole brace group. Other kinds ask for nothing. -/
def Complete (depth : Nat) : TokenKind → Text → Prop
  | .tag, text => (Pattern.tag depth).Whole text
  | .spread, text => (Pattern.spread depth).Whole text
  | .script, text => ∃ group, text = '=' :: group ∧ (Pattern.braces depth).Whole group
  | _, _ => True

/-- The scanner that finds the tokens of a kind. -/
def scannerOf? (depth : Nat) : TokenKind → Option Pattern
  | .tag => some (.tag depth)
  | .spread => some (.spread depth)
  | .script => some (.lead '=' [] (.braces depth))
  | _ => none

/-- Whether two patterns are the same scanner. -/
def sameScanner : Pattern → Pattern → Bool
  | .tag depth, .tag other | .spread depth, .spread other | .braces depth, .braces other =>
    depth == other
  | .lead c more inner, .lead d others behind => c == d && more == others && sameScanner inner behind
  | _, _ => false

/-- Patterns that are the same scanner are equal. -/
theorem eq_of_sameScanner {pattern scanner : Pattern}
    (same : sameScanner pattern scanner = true) : pattern = scanner := by
  fun_induction sameScanner pattern scanner with
  | case1 | case2 | case3 => rw [beq_iff_eq.mp same]
  | case4 c more inner d others behind inductionHypothesis =>
    simp only [Bool.and_eq_true, beq_iff_eq] at same
    obtain ⟨⟨rfl, rfl⟩, same⟩ := same
    rw [inductionHypothesis same]
  | case5 => cases same

/-- Whether a rule, if it makes tokens of these kinds under a name, finds them with their scanner. -/
def scansKind (depth : Nat) (name : String) (rule : Rule) : Bool :=
  match (rule.kindFor? name).bind (scannerOf? depth) with
  | some scanner => !rule.lookbehind && sameScanner rule.pattern scanner
  | none => true

/-- All rules of the templ grammar do. -/
theorem grammar_scansKind (keywords : List Text) (depth : Nat) :
    (grammar keywords depth).Only fun name rule => scansKind depth name rule = true := by
  apply RuleSet.only_of_every
  cases keywords <;>
    simp [grammar, RuleSet.every, RuleSet.everyEntry, RuleSet.everyLink, RuleSet.everyUnder,
      RuleSet.everyRule, RuleSet.everyInside, beforeTag, behindTag, tagRule, tagInside, blockComment,
      lineComment, nameRule, scriptRule, spreadRule, laterInTag, nameInside, scriptInside,
      valueInside, attrNameInside, keywordRule, scansKind, scannerOf?, sameScanner, Rule.kindFor?,
      TokenKind.ofName?, TokenKind.all, TokenKind.name, Grammar.Markup.insideDoctype,
      Grammar.Markup.namespaceRule, RuleSet.ofList, Pairs.ofList, Pairs.putAll, Pairs.put]

/-- What a rule with a scanner takes out of a text, the scanner passes by itself. -/
theorem alone_of_taken {rule : Rule} (scans : rule.pattern.scans = true)
    (plain : rule.lookbehind = false) {text part : Text}
    (taken : Taken (findWith rule) text part) : rule.pattern.after? part = .ok (some []) := by
  obtain ⟨piece, start, stop, -, found, -, rfl⟩ := taken
  obtain ⟨result, searched, rfl, -, atStart⟩ := search_of_findWith found
  rw [← atStart plain]
  exact Pattern.alone_of_searchFrom scans searched

/-- What the scanner of a kind passes by itself is a complete text of the kind. -/
theorem complete_of_alone {depth : Nat} {kind : TokenKind} {scanner : Pattern} {text : Text}
    (scanned : scannerOf? depth kind = some scanner)
    (alone : scanner.after? text = .ok (some [])) : Complete depth kind text := by
  cases kind <;> cases scanned
  case tag => exact Pattern.whole_of_after? alone
  case spread => exact Pattern.whole_of_after? alone
  case script =>
    rw [Pattern.after?] at alone
    split at alone
    · rename_i group led
      exact ⟨group, Text.eq_append_of_after? led, Pattern.whole_of_after? alone⟩
    · cases alone

/-- A kind without a scanner asks for nothing. -/
theorem complete_of_none {depth : Nat} {kind : TokenKind} (free : scannerOf? depth kind = none)
    (text : Text) : Complete depth kind text := by
  cases kind <;> trivial

/-- The text of a token that a rule of the templ grammar has made is complete. -/
theorem complete_of_made {keywords : List Text} {depth : Nat} {name : String} {rule : Rule}
    (held : RuleSet.Holds name rule (grammar keywords depth)) {text : Text} {kind : TokenKind}
    {content : Tree} {aliases : List String} {cached : Option Text}
    (made : MadeBy name rule text (.token kind content aliases cached)) :
    Complete depth kind (Tree.token kind content aliases cached).source := by
  have checked := grammar_scansKind keywords depth name rule held
  cases made with
  | @token _ _ part named taken =>
    show Complete depth kind part
    cases scanned : scannerOf? depth kind with
    | none => exact complete_of_none scanned part
    | some scanner =>
      have both : rule.lookbehind = false ∧ sameScanner rule.pattern scanner = true := by
        simpa [scansKind, named, scanned] using checked
      have same := eq_of_sameScanner both.2
      have scans : rule.pattern.scans = true := by
        rw [same]
        cases kind <;> cases scanned <;> rfl
      exact complete_of_alone scanned (same ▸ alone_of_taken scans both.1 taken)

/-- The text of every token that a text is split into is complete. -/
theorem complete_of_split {keywords : List Text} {depth : Nat} {text : Text} {items : List Tree}
    (split : (grammar keywords depth).tokenize text = .ok items) {kind : TokenKind}
    {content : Tree} {aliases : List String} {cached : Option Text}
    (among : (Tree.token kind content aliases cached).Among items) :
    Complete depth kind (Tree.token kind content aliases cached).source := by
  obtain ⟨name, rule, held, made⟩ :=
    made_of_tokenize (only_keeps (grammar_usable keywords depth)) split rfl among
  exact complete_of_made held made

/-- Marking leaves it complete. -/
theorem complete_of_mark {keywords : List Text} {depth : Nat} {text : Text} {items : List Tree}
    (split : (grammar keywords depth).tokenize text = .ok items) {kind : TokenKind}
    {content : Tree} {aliases : List String} {cached : Option Text}
    (among : (Tree.token kind content aliases cached).Among (mark items)) :
    Complete depth kind (Tree.token kind content aliases cached).source := by
  cases stems_of_mark rfl among with
  | plain => trivial
  | kept has same =>
    rw [same]
    exact complete_of_split split has.2

/-- Every token of a tag, of a spread or of a brace group that is a value has a complete text, at
every depth, whether the text was split or highlighted. That holds for every text, every depth of
brace groups and all further keywords. And whatever a scanner has found in a longer text, by a
search or at a place, it matches as a whole when it is taken out of that text.

Proof: every token was made by a rule of the grammar, of a piece of the text in which the rule had
found it. For these kinds the rules scan, and a scanner passes its match by itself: what it has read
is a derivation, whatever follows. Marking adds only plain text, and keeps the text of every other
token. -/
theorem tokens_complete (config : Config) (depth : Nat) (text : Text) :
    ∃ registry log items marked,
      Registry.create (config.shipped depth) = .ok (registry, log) ∧
      registry.tokenize text config.language = .ok items ∧
      registry.highlight text config.language = .ok marked ∧
      (∀ kind content aliases cached,
        (Tree.token kind content aliases cached).Among items ∨
          (Tree.token kind content aliases cached).Among marked →
        Complete depth kind (Tree.token kind content aliases cached).source) ∧
      (∀ (scanner : Pattern) (around : Text) (pos : Nat) (found : Found), scanner.scans = true →
        scanner.searchFrom around pos = .ok (some found) ∨
          scanner.matchFrom around pos = .ok (some found) →
        scanner.Whole ((around.take found.stop).drop found.start)) := by
  obtain ⟨registry, log, created, installed, hooked⟩ := Registry.create_shipped config depth
  obtain ⟨items, split⟩ := tokenize_total config.keywords depth text
  refine ⟨registry, log, items, mark items, created, Registry.tokenize_installed installed split,
    Registry.highlight_installed installed hooked split, ?_, ?_⟩
  · rintro kind content aliases cached (among | among)
    · exact complete_of_split split among
    · exact complete_of_mark split among
  · rintro scanner around pos found scans (searched | matched)
    · exact Pattern.whole_of_after? (Pattern.alone_of_searchFrom scans searched)
    · exact Pattern.whole_of_after? (Pattern.alone_of_matchFrom scans matched)

end TemplHighlight.Templ
