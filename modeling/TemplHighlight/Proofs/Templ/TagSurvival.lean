import TemplHighlight.Proofs.Document.Tokens
import TemplHighlight.Proofs.Registry.Shipped
import TemplHighlight.Proofs.Split.Idle
import TemplHighlight.Proofs.Split.Places

/-!
# What becomes of tags behind the rule for tags

The rules behind the rule for tags are plain, but for those for characters and strings of Go. A plain
rule leaves every tag at its place. The two greedy rules do so as well, unless they make a token that
crosses the place of the tag. No tag is made behind the rule for tags, so one that is lost does not
come back. That makes exact which tags survive: those whose place is crossed neither by a character
right behind the rule for characters, nor by a string right behind the rule for strings.
-/

namespace TemplHighlight

namespace RuleSet

open Split

/-- The rules up to the last one under a name. -/
def upTo (name : String) (rules : List (String × Rule)) : List (String × Rule) :=
  (rules.reverse.dropWhile fun entry => entry.1 != name).reverse

/-- One rule of a grammar that is tried on the items of a text of some length. -/
def tryRule (root : RuleSet) (length : Nat) (items : List Tree) (entry : String × Rule) :
    Except SplitError (List Tree) :=
  applyRule entry.2 (makeWith (splitWith root (root.depthBound length - 1)) root entry.1 entry.2)
    items

/-- The items of a text when the rules of a grammar have been tried on it up to those under a name,
and the later ones have not. -/
def itemsBehind (root : RuleSet) (name : String) (text : Text) : Except SplitError (List Tree) :=
  (upTo name (chainRules root root)).foldlM (tryRule root text.length) (raw text)

/-- Splitting a text tries all the rules of the grammar on it. -/
theorem tokenize_eq_ok {root : RuleSet} {text : Text} {items : List Tree}
    (split : root.tokenize text = .ok items) :
    (chainRules root root).foldlM (tryRule root text.length) (raw text) = .ok items := by
  obtain ⟨lower, isFuel, run⟩ := splitWith_ok split
  have same : root.depthBound text.length - 1 = lower := by
    omega
  subst same
  exact run

end RuleSet

namespace Templ

open Split RuleSet

variable {keywords : List Text} {depth : Nat} {text : Text} {items result : List Tree}
  {rules : List (String × Rule)} {token : Tree} {place : Nat} {name : String} {rule : Rule}

/-- The rules that are tried on a text behind the one for strings. -/
def behindString (keywords : List Text) : List (String × Rule) :=
  listed ((behindTag keywords).drop 3)

/-- The rules for entities. -/
def entityRules : List (String × Rule) := listed ((behindTag []).take 1)

/-- The rule for characters of Go. -/
def charRule : Rule := { pattern := Grammar.Go.charPattern, greedy := true }

/-- The rule for strings of Go. -/
def stringRule : Rule := { pattern := Grammar.Go.stringPattern, lookbehind := true, greedy := true }

/-- The rules up to the one for tags. -/
def upToTag (depth : Nat) : List (String × Rule) := listed beforeTag ++ [("tag", tagRule depth)]

/-- The rules of the templ grammar, with the greedy ones behind the rule for tags set apart. -/
theorem rules_apart (keywords : List Text) (depth : Nat) :
    chainRules (grammar keywords depth) (grammar keywords depth) =
      upToTag depth ++ (entityRules ++
        ("char", charRule) :: ("string", stringRule) :: behindString keywords) :=
  rfl

/-- A rule of the templ grammar finds matches inside the text and makes tokens without loss. -/
theorem tried_lossless
    (tried : (name, rule) ∈ chainRules (grammar keywords depth) (grammar keywords depth))
    (fuel : Nat) :
    StaysInside (findWith rule) ∧
      MakesLossless (makeWith (splitWith (grammar keywords depth) fuel) (grammar keywords depth)
        name rule) := by
  have keeps := only_keeps (grammar_usable keywords depth)
  obtain ⟨keepsToText, inside⟩ := only_of_chainRules tried keeps keeps
  refine ⟨findWith_stays keepsToText, makeWith_lossless ?_ ?_⟩
  · exact fun _ _ split => splitWith_covers fuel keeps keeps split
  · exact fun inner linked _ _ split => splitWith_covers fuel keeps (inside inner linked) split

/-- Plain rules leave a token at its place. -/
theorem run_stands
    (among : rules ⊆ chainRules (grammar keywords depth) (grammar keywords depth))
    (plain : ∀ entry ∈ rules, entry.2.greedy = false)
    (run : rules.foldlM (tryRule (grammar keywords depth) text.length) items = .ok result)
    (isToken : token.isToken = true) (stands : StandsAt token items place) :
    StandsAt token result place := by
  refine Outcome.foldlM_keeps (fun items => StandsAt token items place) ?_ run stands
  rintro before after ⟨name, rule⟩ member stands applied
  obtain ⟨stays, makes⟩ := tried_lossless (among member)
    ((grammar keywords depth).depthBound text.length - 1)
  exact applyRule_stands (plain _ member) stays makes applied isToken stands

/-- Whether a rule makes tokens that are not tags. -/
def makesOther (entry : String × Rule) : Bool :=
  match entry.2.kindFor? entry.1 with
  | some kind => kind != .tag
  | none => false

/-- A rule that makes other tokens has not made a tag: the tag stood at its place before. -/
theorem tryRule_stood {length : Nat} {content : Tree} {aliases : List String}
    {cached : Option Text}
    (tried : (name, rule) ∈ chainRules (grammar keywords depth) (grammar keywords depth))
    (other : makesOther (name, rule) = true)
    (applied : tryRule (grammar keywords depth) length items (name, rule) = .ok result)
    (stands : StandsAt (.token .tag content aliases cached) result place) :
    StandsAt (.token .tag content aliases cached) items place := by
  obtain ⟨stays, makes⟩ := tried_lossless tried ((grammar keywords depth).depthBound length - 1)
  unfold makesOther at other
  split at other
  · rename_i kind named
    exact applyRule_stood_other named (by simpa using other) stays makes applied stands
  · cases other

/-- No run of such rules makes a tag. -/
theorem run_stood {content : Tree} {aliases : List String} {cached : Option Text}
    (among : rules ⊆ chainRules (grammar keywords depth) (grammar keywords depth))
    (others : ∀ entry ∈ rules, makesOther entry = true)
    (run : rules.foldlM (tryRule (grammar keywords depth) text.length) items = .ok result)
    (stands : StandsAt (.token .tag content aliases cached) result place) :
    StandsAt (.token .tag content aliases cached) items place := by
  refine Outcome.foldlM_keeps (fun after => StandsAt (.token .tag content aliases cached) after place →
    StandsAt (.token .tag content aliases cached) items place) ?_ run id stands
  rintro before after ⟨name, rule⟩ member stood applied stands
  exact stood (tryRule_stood (among member) (others _ member) applied stands)

/-- The rules behind the one for strings are plain and make no tags. -/
theorem behindString_plain (keywords : List Text) :
    ∀ entry ∈ behindString keywords, entry.2.greedy = false ∧ makesOther entry = true := by
  have checked : (behindString keywords).all (fun entry => !entry.2.greedy && makesOther entry) =
      true := by
    cases keywords <;> rfl
  intro entry member
  simpa using List.all_eq_true.mp checked entry member

/-- The rules for entities are plain. -/
theorem entityRules_plain : ∀ entry ∈ entityRules, entry.2.greedy = false := by
  have checked : entityRules.all (fun entry => !entry.2.greedy) = true := rfl
  intro entry member
  simpa using List.all_eq_true.mp checked entry member

/-- The rules up to a name are among the rules. -/
theorem upTo_subset (name : String) (rules : List (String × Rule)) : upTo name rules ⊆ rules := by
  intro entry member
  have dropped := List.mem_reverse.mp member
  exact List.mem_reverse.mp ((List.dropWhile_suffix _).subset dropped)

/-- The items of a text behind some of the rules cover it. -/
theorem covers_of_run
    (among : rules ⊆ chainRules (grammar keywords depth) (grammar keywords depth))
    (run : rules.foldlM (tryRule (grammar keywords depth) text.length) (raw text) = .ok items) :
    Covers text items := by
  have keeps := only_keeps (grammar_usable keywords depth)
  refine Outcome.foldlM_keeps (Covers text) ?_ run (covers_raw text)
  rintro before after ⟨name, rule⟩ member covers applied
  exact tried_covers keeps keeps (among member) applied covers

/-! ## The stages behind the rule for tags -/

/-- The items of a text right behind the rules for tags, for entities, for characters and for
strings, and when it is split. -/
structure Stages (keywords : List Text) (depth : Nat) (text : Text)
    (tagged entities charred strung items : List Tree) : Prop where
  tagRun : (upToTag depth).foldlM (tryRule (grammar keywords depth) text.length) (raw text) =
    .ok tagged
  entityRun : entityRules.foldlM (tryRule (grammar keywords depth) text.length) tagged =
    .ok entities
  charRun : tryRule (grammar keywords depth) text.length entities ("char", charRule) = .ok charred
  stringRun : tryRule (grammar keywords depth) text.length charred ("string", stringRule) =
    .ok strung
  laterRun : (behindString keywords).foldlM (tryRule (grammar keywords depth) text.length) strung =
    .ok items

/-- A text that is split goes through these stages. -/
theorem stages_of_split (split : (grammar keywords depth).tokenize text = .ok items) :
    ∃ tagged entities charred strung,
      Stages keywords depth text tagged entities charred strung items := by
  have run := tokenize_eq_ok split
  rw [rules_apart, List.foldlM_append, Outcome.bind_eq_ok] at run
  obtain ⟨tagged, tagRun, run⟩ := run
  rw [List.foldlM_append, Outcome.bind_eq_ok] at run
  obtain ⟨entities, entityRun, run⟩ := run
  rw [List.foldlM_cons, Outcome.bind_eq_ok] at run
  obtain ⟨charred, charRun, run⟩ := run
  rw [List.foldlM_cons, Outcome.bind_eq_ok] at run
  obtain ⟨strung, stringRun, run⟩ := run
  exact ⟨tagged, entities, charred, strung, tagRun, entityRun, charRun, stringRun, run⟩

section

variable {tagged entities charred strung : List Tree}
  (stages : Stages keywords depth text tagged entities charred strung items)
include stages

/-- The stages behind the rules for tags, for characters and for strings are the items behind these
rules. -/
theorem Stages.itemsBehind :
    (grammar keywords depth).itemsBehind "tag" text = .ok tagged ∧
      (grammar keywords depth).itemsBehind "char" text = .ok charred ∧
      (grammar keywords depth).itemsBehind "string" text = .ok strung := by
  have charRun : (upToTag depth ++ (entityRules ++ [("char", charRule)])).foldlM
      (tryRule (grammar keywords depth) text.length) (raw text) = .ok charred := by
    simp only [List.foldlM_append, Outcome.bind_eq_ok, List.foldlM_cons, List.foldlM_nil]
    exact ⟨tagged, stages.tagRun, entities, stages.entityRun, charred, stages.charRun, rfl⟩
  have stringRun :
      (upToTag depth ++ (entityRules ++ [("char", charRule), ("string", stringRule)])).foldlM
        (tryRule (grammar keywords depth) text.length) (raw text) = .ok strung := by
    simp only [List.foldlM_append, Outcome.bind_eq_ok, List.foldlM_cons, List.foldlM_nil]
    exact ⟨tagged, stages.tagRun, entities, stages.entityRun, charred, stages.charRun, strung,
      stages.stringRun, rfl⟩
  exact ⟨stages.tagRun, charRun, stringRun⟩

/-- A tag that stands at a place behind the rule for tags stands there in the end, if and only if its
place is crossed neither by a character nor by a string, each right behind its rule.

Proof: the two greedy rules lose the tag if and only if they cross its place; the other rules are
plain and leave it there. And none of the rules makes a tag, so it stands at its place behind every
rule if it does so in the end. -/
theorem Stages.tag_stands_iff {content : Tree} {aliases : List String} {cached : Option Text}
    (stands : StandsAt (.token .tag content aliases cached) tagged place) :
    StandsAt (.token .tag content aliases cached) items place ↔
      ¬ Crossed .char charred place ∧ ¬ Crossed .string strung place := by
  have charTried : ("char", charRule) ∈
      chainRules (grammar keywords depth) (grammar keywords depth) := by
    simp [rules_apart]
  have stringTried : ("string", stringRule) ∈
      chainRules (grammar keywords depth) (grammar keywords depth) := by
    simp [rules_apart]
  have entitiesTried : entityRules ⊆
      chainRules (grammar keywords depth) (grammar keywords depth) := by
    simp [rules_apart]
  have behindTried : behindString keywords ⊆
      chainRules (grammar keywords depth) (grammar keywords depth) := by
    intro entry member
    simp [rules_apart, member]
  have standsBefore := run_stands entitiesTried entityRules_plain stages.entityRun rfl stands
  obtain ⟨charStays, charMakes⟩ :=
    tried_lossless charTried ((grammar keywords depth).depthBound text.length - 1)
  obtain ⟨stringStays, stringMakes⟩ :=
    tried_lossless stringTried ((grammar keywords depth).depthBound text.length - 1)
  have charIff : StandsAt (.token .tag content aliases cached) charred place ↔
      ¬ Crossed .char charred place :=
    applyRule_stands_iff rfl rfl charStays charMakes stages.charRun rfl standsBefore
  constructor
  · intro standsInEnd
    have standsStrung := run_stood behindTried (fun entry member =>
      (behindString_plain keywords entry member).2) stages.laterRun standsInEnd
    have standsCharred := tryRule_stood stringTried rfl stages.stringRun standsStrung
    exact ⟨charIff.mp standsCharred, standsStrung.not_crossed .string⟩
  · rintro ⟨noChar, noString⟩
    have standsStrung := (applyRule_stands_iff rfl rfl stringStays stringMakes stages.stringRun rfl
      (charIff.mpr noChar)).mpr noString
    exact run_stands behindTried (fun entry member =>
      (behindString_plain keywords entry member).1) stages.laterRun rfl standsStrung

end

/-- Which tags survive the rules behind the rule for tags. For every text, every depth of brace
groups and all further keywords, a tag that stands at a place right behind the rule for tags stands
there when the text is split, if and only if its place is crossed neither by a character right behind
the rule for characters nor by a string right behind the rule for strings: by a token of that kind
that starts in front of the tag and ends inside or behind it. No other rule takes a tag in or cuts
one. -/
theorem tag_survives_iff (config : Config) (depth : Nat) (text : Text) :
    ∃ registry log root tagged charred strung items,
      Registry.create (config.shipped depth) = .ok (registry, log) ∧
      registry.get config.language = .ok root ∧
      root.itemsBehind "tag" text = .ok tagged ∧
      root.itemsBehind "char" text = .ok charred ∧
      root.itemsBehind "string" text = .ok strung ∧
      registry.tokenize text config.language = .ok items ∧
      (∀ stage ∈ [tagged, charred, strung, items], Tree.sources stage = text) ∧
      ∀ content aliases cached place,
        StandsAt (.token .tag content aliases cached) tagged place →
        (StandsAt (.token .tag content aliases cached) items place ↔
          ¬ Crossed .char charred place ∧ ¬ Crossed .string strung place) := by
  obtain ⟨registry, log, created, installed, -⟩ := Registry.create_shipped config depth
  obtain ⟨items, split⟩ := tokenize_total config.keywords depth text
  obtain ⟨tagged, entities, charred, strung, stages⟩ := stages_of_split split
  obtain ⟨taggedBehind, charredBehind, strungBehind⟩ := stages.itemsBehind
  refine ⟨registry, log, grammar config.keywords depth, tagged, charred, strung, items, created,
    installed, taggedBehind, charredBehind, strungBehind,
    Registry.tokenize_installed installed split, ?_,
    fun _ _ _ _ stands => stages.tag_stands_iff stands⟩
  simp only [List.forall_mem_cons]
  exact ⟨(covers_of_run (upTo_subset _ _) taggedBehind).sources,
    (covers_of_run (upTo_subset _ _) charredBehind).sources,
    (covers_of_run (upTo_subset _ _) strungBehind).sources,
    (covers_of_run (List.Subset.refl _) (tokenize_eq_ok split)).sources, nofun⟩

/-! ## A tag that does not survive -/

section

open Document

/-- A tag between apostrophes. -/
def tagInQuotes : Text := ['\''] ++ (tagText false letterName ++ ['\''])

/-- Nothing else starts in this text that the rules up to the one for tags would find. -/
theorem tagInQuotes_harmless : Throughout Harmless tagInQuotes [] := by
  have apostrophe : ∀ c ∈ ['\''], c ≠ '<' ∧ c ≠ '/' :=
    List.forall_mem_singleton.mpr (by decide)
  exact throughout_append.mpr ⟨harmless_others apostrophe _,
    throughout_append.mpr ⟨harmless_tag false letterName _, harmless_others apostrophe _⟩⟩

/-- The rule for tags finds the tag in this text. -/
theorem tagInQuotes_found (depth : Nat) :
    findWith (tagRule depth) tagInQuotes = .ok (some (1, 4)) := by
  have notOpen : ∀ c ∈ ['\''], (c == '<') = false := List.forall_mem_singleton.mpr (by decide)
  exact findWith_takes rfl (Pattern.quiet_of_first (tag_scanner depth).starts notOpen)
    ⟨⟨'<', rfl, rfl⟩, tag_after false letterName ['\'']⟩

/-- Right behind that rule, the tag stands behind the first apostrophe, which is raw. -/
theorem tagInQuotes_tagged (run : (upToTag depth).foldlM
      (tryRule (grammar keywords depth) tagInQuotes.length) (raw tagInQuotes) = .ok items) :
    ∃ content aliases cached later,
      items = .text ['\''] :: .token .tag content aliases cached :: later := by
  rw [upToTag, List.foldlM_append, Outcome.bind_eq_ok] at run
  obtain ⟨before, beforeRun, run⟩ := run
  obtain rfl : before = raw tagInQuotes := beforeTag_same tagInQuotes_harmless beforeRun
  rw [List.foldlM_cons, Outcome.bind_eq_ok] at run
  obtain ⟨behind, applied, same⟩ := run
  cases same
  have tried : ("tag", tagRule depth) ∈
      chainRules (grammar keywords depth) (grammar keywords depth) := by
    simp [rules_apart, upToTag]
  obtain ⟨stays, -⟩ := tried_lossless tried
    ((grammar keywords depth).depthBound tagInQuotes.length - 1)
  have greedy : (tagRule depth).greedy = true := rfl
  rw [tryRule, applyRule, if_pos greedy] at applied
  have steps := (steps_of_splitGreedy applied).alone fun text start stop found ordered =>
    Nat.lt_of_lt_of_le ordered (stays text start stop found)
  obtain ⟨token, later, made, -, rfl⟩ :=
    steps.of_found (List.cons_ne_nil _ _) (tagInQuotes_found depth) (by decide)
  obtain ⟨content, rfl⟩ := token_of_makeWith rfl made
  exact ⟨content, _, _, later, rfl⟩

/-- The rule for characters finds the whole text. -/
theorem tagInQuotes_char : findWith charRule tagInQuotes = .ok (some (0, tagInQuotes.length)) := rfl

/-- In this text the tag does not survive: it stands among the items right behind the rule for tags,
and it is gone when the text is split, since the text is also a character literal. -/
theorem tag_in_quotes_lost :
    ∃ registry log root tagged items content aliases cached,
      Registry.create {} = .ok (registry, log) ∧
      registry.get "templ" = .ok root ∧
      root.itemsBehind "tag" tagInQuotes = .ok tagged ∧
      registry.tokenize tagInQuotes "templ" = .ok items ∧
      StandsAt (.token .tag content aliases cached) tagged 1 ∧
      ∀ place, ¬ StandsAt (.token .tag content aliases cached) items place := by
  obtain ⟨registry, log, created, installed, -⟩ := Registry.create_shipped {} 2
  obtain ⟨items, split⟩ := tokenize_total (Config.keywords {}) 2 tagInQuotes
  obtain ⟨tagged, entities, charred, strung, stages⟩ := stages_of_split split
  obtain ⟨content, aliases, cached, later, rfl⟩ := tagInQuotes_tagged stages.tagRun
  refine ⟨registry, log, _, _, items, content, aliases, cached, created, installed,
    stages.itemsBehind.1, Registry.tokenize_installed installed split, .behind .here, ?_⟩
  have covers := covers_of_run (upTo_subset "tag" _) stages.itemsBehind.1
  have idle : ∀ entry ∈ entityRules, Idle entry.2 tagInQuotes := by
    have checked : entityRules.all (fun entry => entry.2.pattern.searches &&
        entry.2.pattern.needs ['&']) = true := rfl
    intro entry member
    obtain ⟨searches, needed⟩ := Bool.and_eq_true_iff.mp (List.all_eq_true.mp checked entry member)
    exact idle_of_needs searches needed (List.forall_iff_forall_mem.mp (by decide))
  have same := run_idle idle covers stages.entityRun
  have charRun := stages.charRun
  rw [same] at charRun
  obtain ⟨char, made, rfl⟩ := applyRule_whole rfl rfl covers tagInQuotes_char charRun
  obtain ⟨inner, rfl⟩ := token_of_makeWith rfl made
  have behindRun : (("string", stringRule) :: behindString (Config.keywords {})).foldlM
      (tryRule (grammar (Config.keywords {}) 2) tagInQuotes.length) _ = .ok items :=
    Outcome.bind_eq_ok.mpr ⟨strung, stages.stringRun, stages.laterRun⟩
  obtain rfl := foldlM_alone rfl behindRun
  intro place stands
  cases List.mem_singleton.mp stands.mem

end

end Templ

end TemplHighlight
