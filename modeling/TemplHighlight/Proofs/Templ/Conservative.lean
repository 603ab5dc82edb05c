import TemplHighlight.Proofs.Pattern.Passed
import TemplHighlight.Proofs.Registry.Shipped
import TemplHighlight.Proofs.Split.Idle
import TemplHighlight.Proofs.TagBody.Kept

/-!
# Text without markup

The templ grammar holds the rules of the Go grammar, with its further keywords, in their order, and
rules for markup among them. Every rule for markup needs a `<` or an `&`, so in a text without these
it finds nothing, whatever the rules before it have left; and no rule of the Go grammar has a set
inside, so none notices in which grammar it stands. Such a text is split and highlighted as Go.
-/

namespace TemplHighlight.Templ

open Grammar Split TagBody

/-- The Go grammar with further keywords. -/
def script (keywords : List Text) : RuleSet :=
  ⟨"go", ("comment", [blockComment, lineComment]) :: (behindTag keywords).tail, .none⟩

/-- It is what extending the shipped Go grammar gives. -/
theorem extendKeywords_script (keywords : List Text) :
    extendKeywords (.to go) keywords "go" = .ok (script keywords) := by
  cases keywords <;> rfl

/-- The templ grammar is composed of it. -/
theorem compose_script (keywords : List Text) (depth : Nat) :
    compose (.to markup) (.to (script keywords)) depth = .ok (grammar keywords depth) := by
  have composed := composed_grammar keywords depth
  rw [Templ.composed, extendKeywords_script] at composed
  exact composed

/-- The rules for comments, which come first in both grammars. -/
def comments : List (String × Rule) := [("comment", blockComment), ("comment", lineComment)]

/-- The rules for markup. -/
def markupRules (depth : Nat) : List (String × Rule) :=
  (listed beforeTag).drop 2 ++ ("tag", tagRule depth) :: (listed (behindTag [])).take 2

/-- The rules of the templ grammar are those of the Go grammar, with the rules for markup behind the
comments. -/
theorem rules_of_both (keywords : List Text) (depth : Nat) :
    RuleSet.chainRules (grammar keywords depth) (grammar keywords depth) =
        comments ++ (markupRules depth ++ listed (behindTag keywords).tail) ∧
      RuleSet.chainRules (script keywords) (script keywords) =
        comments ++ listed (behindTag keywords).tail :=
  ⟨rfl, rfl⟩

/-- The rules of the Go grammar have no sets inside. -/
theorem script_leaves (keywords : List Text) :
    ∀ entry ∈ comments ++ listed (behindTag keywords).tail, entry.2.inside = .none := by
  have ends : (comments ++ listed (behindTag keywords).tail).all
      (fun entry => isEnd entry.2.inside) = true := by
    cases keywords <;> rfl
  intro entry listed
  exact none_of_isEnd (List.all_eq_true.mp ends entry listed)

/-- Every rule for markup can be searched for, and needs a `<` or an `&`. -/
theorem markupRules_need (depth : Nat) :
    ∀ entry ∈ markupRules depth,
      entry.2.pattern.searches = true ∧ entry.2.pattern.needs ['<', '&'] = true := by
  have checked : (markupRules depth).all (fun entry => entry.2.pattern.searches &&
      entry.2.pattern.needs ['<', '&']) = true := rfl
  intro entry listed
  exact Bool.and_eq_true_iff.mp (List.all_eq_true.mp checked entry listed)

/-- The rules for markup find nothing in a text without `<` and `&`. -/
theorem markupRules_idle (depth : Nat) {text : Text} (bare : ∀ c ∈ text, c ∉ ['<', '&']) :
    ∀ entry ∈ markupRules depth, Idle entry.2 text := by
  intro entry listed
  obtain ⟨searches, needed⟩ := markupRules_need depth entry listed
  exact idle_of_needs searches needed bare

/-- A text without `<` and `&` is split in the same way with both grammars. -/
theorem tokenize_script {keywords : List Text} {depth : Nat} {text : Text}
    (bare : ∀ c ∈ text, c ∉ ['<', '&']) {items : List Tree}
    (split : (grammar keywords depth).tokenize text = .ok items) :
    (script keywords).tokenize text = .ok items := by
  have fuel (root : RuleSet) : ∃ lower, root.depthBound text.length = lower + 1 :=
    ⟨_, (Nat.succ_pred_eq_of_pos (Nat.mul_pos (Nat.succ_pos _) (Nat.succ_pos _))).symm⟩
  obtain ⟨lower, isFuel⟩ := fuel (grammar keywords depth)
  obtain ⟨lower', isFuel'⟩ := fuel (script keywords)
  obtain ⟨tried, tried'⟩ := rules_of_both keywords depth
  have keeps := only_keeps (grammar_usable keywords depth)
  rw [RuleSet.tokenize, isFuel] at split
  rw [RuleSet.tokenize, isFuel']
  exact splitWith_without_idle keeps keeps tried tried' (script_leaves keywords)
    (markupRules_idle depth bare) split

/-- What the Go grammar splits a text into has no lists inside. -/
theorem script_flat {keywords : List Text} {text : Text} {items : List Tree}
    (split : (script keywords).tokenize text = .ok items) :
    ∀ item ∈ items, item.isNested = false := by
  obtain ⟨lower, isFuel, -⟩ := splitWith_ok split
  rw [RuleSet.tokenize, isFuel] at split
  have leaves : ∀ entry ∈ RuleSet.chainRules (script keywords) (script keywords),
      entry.2.inside = .none := script_leaves keywords
  exact splitWith_flat leaves split

/-- Composing is conservative over Go. A text without `<` and `&` is split by the templ grammar into
the very items that the Go grammar splits it into, from which the templ grammar was composed, with
all further keywords; and highlighting it gives these items once more. That holds at every depth of
brace groups.

Proof: between the comments and the other rules of the Go grammar, which keep their order, stand only
rules for markup. Each of these needs a `<` or an `&`, and the items cover a text without them. The
items have no lists inside, so marking changes nothing. -/
theorem go_text_conservative (config : Config) (depth : Nat) (text : Text)
    (bare : ∀ c ∈ text, c ≠ '<' ∧ c ≠ '&') :
    ∃ goGrammar templGrammar registry log items,
      extendKeywords (.to go) config.keywords "go" = .ok goGrammar ∧
      compose (.to markup) (.to goGrammar) depth = .ok templGrammar ∧
      goGrammar.tokenize text = .ok items ∧
      templGrammar.tokenize text = .ok items ∧
      Registry.create (config.shipped depth) = .ok (registry, log) ∧
      registry.tokenize text config.language = .ok items ∧
      registry.highlight text config.language = .ok items := by
  obtain ⟨registry, log, created, installed, hooked⟩ := Registry.create_shipped config depth
  obtain ⟨items, split⟩ := tokenize_total config.keywords depth text
  have noMarkup : ∀ c ∈ text, c ∉ ['<', '&'] := by
    intro c member
    simpa using bare c member
  have asGo := tokenize_script noMarkup split
  have marked := Registry.highlight_installed installed hooked split
  rw [mark_flat (script_flat asGo)] at marked
  exact ⟨script config.keywords, grammar config.keywords depth, registry, log, items,
    extendKeywords_script _, compose_script _ _, asGo, split, created,
    Registry.tokenize_installed installed split, marked⟩

/-- A line of Go with a further keyword, a call, a raw string, an escaped character, and a comment in
which a string starts. -/
def goLine : Text := "templ f() \x7b x := g(`\x7d`, '\\'') /* \" */ \x7d".toList

/-- It holds no markup, so it is split and highlighted as Go with the default configuration. -/
theorem go_text_conservative_line :
    (∀ c ∈ goLine, c ≠ '<' ∧ c ≠ '&') ∧
      ∃ goGrammar templGrammar registry log items,
        extendKeywords (.to go) (Config.keywords {}) "go" = .ok goGrammar ∧
        compose (.to markup) (.to goGrammar) 2 = .ok templGrammar ∧
        goGrammar.tokenize goLine = .ok items ∧
        templGrammar.tokenize goLine = .ok items ∧
        Registry.create {} = .ok (registry, log) ∧
        registry.tokenize goLine "templ" = .ok items ∧
        registry.highlight goLine "templ" = .ok items := by
  have checked : goLine.all (fun c => c != '<' && c != '&') = true := rfl
  have bare : ∀ c ∈ goLine, c ≠ '<' ∧ c ≠ '&' := by
    intro c listed
    simpa using List.all_eq_true.mp checked c listed
  exact ⟨bare, go_text_conservative {} 2 goLine bare⟩

end TemplHighlight.Templ
