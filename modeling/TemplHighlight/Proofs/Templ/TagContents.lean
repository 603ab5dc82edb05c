import Mathlib.Data.List.Forall2
import TemplHighlight.Proofs.Split.Retrace
import TemplHighlight.Proofs.Templ.TagReading
import TemplHighlight.Proofs.Templ.TagRules

/-!
# What the token of a tag contains

Behind its name, the token of a tag should contain one token for each further part of the tag, and
the gaps as raw text. The rules that are tried there know nothing of the parse of the tag; each
searches in whatever is still raw. Nevertheless they agree with the parse, if the first two of them
find nothing inside a quoted value or a spread.
-/

namespace TemplHighlight.Templ

open Grammar Split TagLanguage

/-- How a part of a tag is shown. -/
inductive Shows : TagPart → Tree → Prop where
  | gap (text : Text) : Shows ⟨.gap, text⟩ (.text text)
  | name (text : Text) (content : Tree) :
      Shows ⟨.name, text⟩ (.token .attrName content [] (some text))
  | value (text : Text) (content : Tree) :
      Shows ⟨.value, text⟩ (.token .attrValue content [] (some text))
  | script (text : Text) (content : Tree) :
      Shows ⟨.script, text⟩ (.token .script content ["language-go"] (some text))
  | spread (text : Text) (content : Tree) :
      Shows ⟨.spread, text⟩ (.token .spread content [] (some text))
  | ending (text : Text) :
      Shows ⟨.ending, text⟩ (.token .punctuation (.text text) [] (some text))

/-! ## From rule to rule -/

/-- The rule for values that are no brace groups. -/
def valueRule : Rule := { pattern := templAttrValuePattern, inside := .to valueInside }

/-- The rule for the end of a tag. -/
def endingRule : Rule := { pattern := Markup.closingMark }

/-- The rule for the names of attributes. -/
def attrNameRule : Rule := { pattern := Markup.attrNamePattern, inside := .to attrNameInside }

/-- The rules that are tried behind the name of a tag, one by one. -/
theorem behindName_rules (depth : Nat) :
    behindName depth =
      [("script", scriptRule depth), ("spread", spreadRule depth), ("attr-value", valueRule),
        ("punctuation", endingRule), ("attr-name", attrNameRule), ("comment", blockComment),
        ("comment", lineComment)] :=
  rfl

variable {depth : Nat} {splitInside : RuleSet → Text → Except SplitError (List Tree)}
  {root : RuleSet} {parts : List TagPart}

/-- A rule makes tokens that show the parts of one role, if its kind and its aliases are those of
the tokens that do. -/
theorem makes_of_kind {name : String} {rule : Rule} {kind : TokenKind} {role : TagRole}
    (named : rule.kindFor? name = some kind)
    (only : ∀ part text content,
      Shows part (.token kind content rule.aliases (some text)) → part = ⟨role, text⟩)
    (shown : ∀ text content,
      Shows ⟨role, text⟩ (.token kind content rule.aliases (some text))) :
    Makes Shows (makeWith splitInside root name rule) role := by
  intro text token made
  obtain ⟨content, rfl⟩ := token_of_makeWith named made
  refine ⟨rfl, fun part => ⟨only part text content, ?_⟩⟩
  rintro rfl
  exact shown text content

/-- The rule for brace groups makes tokens that show them. -/
theorem script_makes :
    Makes Shows (makeWith splitInside root "script" (scriptRule depth)) .script := by
  refine makes_of_kind rfl ?_ .script
  rintro _ _ _ ⟨⟩
  rfl

/-- The rule for spreads makes tokens that show them. -/
theorem spread_makes :
    Makes Shows (makeWith splitInside root "spread" (spreadRule depth)) .spread := by
  refine makes_of_kind rfl ?_ .spread
  rintro _ _ _ ⟨⟩
  rfl

/-- The rule for other values makes tokens that show them. -/
theorem value_makes : Makes Shows (makeWith splitInside root "attr-value" valueRule) .value := by
  refine makes_of_kind rfl ?_ .value
  rintro _ _ _ ⟨⟩
  rfl

/-- The rule for the names of attributes makes tokens that show them. -/
theorem name_makes : Makes Shows (makeWith splitInside root "attr-name" attrNameRule) .name := by
  refine makes_of_kind rfl ?_ .name
  rintro _ _ _ ⟨⟩
  rfl

/-- The rule for the end of a tag makes tokens that show it. Their content is their text. -/
theorem ending_makes :
    Makes Shows (makeWith splitInside root "punctuation" endingRule) .ending := by
  intro text token made
  rw [leaf_of_makeWith rfl rfl made]
  refine ⟨rfl, fun part => ⟨?_, ?_⟩⟩
  · rintro ⟨⟩
    rfl
  · rintro rfl
    exact .ending text

/-- The rule for brace groups makes tokens of them. -/
theorem stage_script {items result : List Tree} (stage : Stage Shows [] parts items)
    (arranged : Each (Fits depth) parts) (quiet : ScriptsQuiet depth parts)
    (steps : EachSteps (findWith (scriptRule depth))
      (makeWith splitInside root "script" (scriptRule depth)) items result) :
    Stage Shows [.script] parts result := by
  have ended : (scriptRule depth).pattern.Misses [] := rfl
  exact stage.grow rfl ended script_makes (script_reads arranged quiet) steps

/-- The rule for spreads makes tokens of them. -/
theorem stage_spread {items result : List Tree} (stage : Stage Shows [.script] parts items)
    (arranged : Each (Fits depth) parts) (quiet : SpreadsQuiet depth parts)
    (steps : EachSteps (findWith (spreadRule depth))
      (makeWith splitInside root "spread" (spreadRule depth)) items result) :
    Stage Shows [.spread, .script] parts result := by
  have ended : (spreadRule depth).pattern.Misses [] := rfl
  exact stage.grow rfl ended spread_makes (spread_reads arranged quiet) steps

/-- The three rules behind these make tokens of all other parts but the gaps. -/
theorem stage_others {items values endings names : List Tree}
    (stage : Stage Shows [.spread, .script] parts items) (arranged : Each (Fits depth) parts)
    (valued : EachSteps (findWith valueRule) (makeWith splitInside root "attr-value" valueRule)
      items values)
    (ended : EachSteps (findWith endingRule) (makeWith splitInside root "punctuation" endingRule)
      values endings)
    (named : EachSteps (findWith attrNameRule) (makeWith splitInside root "attr-name" attrNameRule)
      endings names) :
    Stage Shows [.name, .ending, .value, .spread, .script] parts names := by
  have noValue : valueRule.pattern.Misses [] := fun before pos => rfl
  have noEnding : endingRule.pattern.Misses [] := fun before pos => rfl
  have noName : attrNameRule.pattern.Misses [] := fun before pos => rfl
  have values := stage.grow rfl noValue value_makes (value_reads arranged) valued
  have endings := values.grow rfl noEnding ending_makes (ending_reads arranged) ended
  exact endings.grow rfl noName name_makes (name_reads arranged) named

/-! ## The last stage -/

/-- Parts that stay raw at the last stage are gaps, and as no gap follows another one, there is at
most one of them. -/
theorem run_shows {run later : List TagPart} (gaps : ∀ part ∈ run, part.role = .gap)
    (arranged : Each (Fits depth) (run ++ later)) :
    List.Forall₂ Shows run (raw (textOf run)) := by
  cases run with
  | nil => exact .nil
  | cons part run =>
    obtain ⟨role, text⟩ := part
    obtain ⟨isGap, others⟩ := List.forall_mem_cons.mp gaps
    cases isGap
    obtain ⟨⟨formed, next⟩, -⟩ := arranged
    cases run with
    | nil =>
      obtain ⟨c, rest, rfl⟩ := List.exists_cons_of_ne_nil formed.1
      have same : textOf [(⟨.gap, c :: rest⟩ : TagPart)] = c :: rest := List.append_nil _
      rw [same]
      exact .cons (.gap _) .nil
    | cons other run =>
      have otherGap := others other List.mem_cons_self
      have follows := (next other rfl).2
      rw [otherGap] at follows
      cases follows

/-- At the last stage every part is shown. -/
theorem shows_of_stage {items : List Tree}
    (stage : Stage Shows [.name, .ending, .value, .spread, .script] parts items)
    (arranged : Each (Fits depth) parts) : List.Forall₂ Shows parts items := by
  have gap {part : TagPart} (pending : part.role ∉ [.name, .ending, .value, .spread, .script]) :
      part.role = .gap := by
    cases role : part.role <;> simp_all
  induction stage with
  | @rest run pending =>
    rw [← List.append_nil run] at arranged
    exact run_shows (fun part member => gap (pending part member)) arranged
  | @token run later part token items pending isDone isToken shown behind inductionHypothesis =>
    refine List.rel_append (run_shows (fun part member => gap (pending part member)) arranged) ?_
    exact .cons shown (inductionHypothesis arranged.behind.2)

/-- The parts of a tag have characters. -/
theorem arranged_filled (arranged : Each (Fits depth) parts) : ∀ part ∈ parts, part.text ≠ [] := by
  induction parts with
  | nil => nofun
  | cons part later inductionHypothesis =>
    refine List.forall_mem_cons.mpr ⟨?_, inductionHypothesis arranged.2⟩
    have formed := arranged.1.formed
    unfold Formed at formed
    split at formed
    · exact formed.1
    · obtain ⟨run, text⟩ := formed
      exact text ▸ run.filled
    · obtain ⟨value, -, text⟩ := formed
      exact text ▸ List.cons_ne_nil _ _
    · obtain ⟨inner, -, text⟩ := formed
      exact text ▸ List.cons_ne_nil _ _
    · obtain ⟨inner, text⟩ := formed
      exact text ▸ List.cons_ne_nil _ _
    · obtain ⟨slash, text⟩ := formed
      exact text ▸ endMark_filled slash

/-- A gap in front of parts that are shown comes to the last stage with them, as no gap follows
it. -/
theorem stage_behind_gap {text : Text} {items : List Tree} (shown : List.Forall₂ Shows parts items)
    (arranged : Each (Fits depth) (⟨.gap, text⟩ :: parts))
    (stage : Stage Shows [.name, .ending, .value, .spread, .script] parts items) :
    Stage Shows [.name, .ending, .value, .spread, .script] (⟨.gap, text⟩ :: parts)
      (.text text :: items) := by
  obtain ⟨⟨formed, next⟩, inBehind⟩ := arranged
  have pending : ∀ part ∈ [(⟨.gap, text⟩ : TagPart)],
      part.role ∉ [TagRole.name, .ending, .value, .spread, .script] := by simp
  have isRaw : raw (textOf [(⟨.gap, text⟩ : TagPart)]) = [.text text] := by
    obtain ⟨c, rest, rfl⟩ := List.exists_cons_of_ne_nil formed.1
    have same : textOf [(⟨.gap, c :: rest⟩ : TagPart)] = c :: rest := List.append_nil _
    rw [same]
    rfl
  cases shown with
  | nil => exact isRaw ▸ .rest pending
  | @cons part item parts items first behind =>
    have follows := (next part rfl).2
    have isToken : item.isToken = true := by
      cases first with
      | gap => cases follows
      | name | value | script | spread | ending => rfl
    obtain ⟨_, _, ⟨⟩, isDone, shows, stage⟩ := stage.of_token (arranged_filled inBehind) isToken
    have together := Stage.token pending isDone isToken shows stage
    rw [isRaw] at together
    exact together

/-- Parts that are all shown are at the last stage. -/
theorem stage_of_shows {items : List Tree} (shown : List.Forall₂ Shows parts items)
    (arranged : Each (Fits depth) parts) :
    Stage Shows [.name, .ending, .value, .spread, .script] parts items := by
  have none : ∀ part ∈ ([] : List TagPart),
      part.role ∉ [TagRole.name, .ending, .value, .spread, .script] := nofun
  induction shown with
  | nil => exact .rest none
  | @cons part item parts items first behind inductionHypothesis =>
    have later := inductionHypothesis arranged.2
    cases first with
    | gap text => exact stage_behind_gap behind arranged later
    | name | value | script | spread | ending =>
      exact .token none (by simp) rfl (by constructor) later

/-! ## Comments -/

/-- A rule for comments changes nothing where no slash is raw. -/
theorem applyRule_comment {rule : Rule} (isComment : rule = blockComment ∨ rule = lineComment)
    {make : Maker} {items result : List Tree}
    (noSlash : ∀ item ∈ items, ¬ item.isToken = true → '/' ∉ item.source)
    (applied : applyRule rule make items = .ok result) : result = items := by
  have starts (text : Text) (start stop : Nat)
      (found : findWith rule text = .ok (some (start, stop))) :
      ∃ second rest, text.drop start = '/' :: second :: rest := by
    rcases isComment with rfl | rfl
    · exact ⟨_, findWith_led rfl rfl rfl found⟩
    · exact ⟨_, findWith_led rfl rfl rfl found⟩
  have greedy : rule.greedy = true := by
    rcases isComment with rfl | rfl <;> rfl
  rw [applyRule, if_pos greedy] at applied
  refine (steps_of_splitGreedy applied).same ?_
  intro item later ends raw start stop found
  by_contra inside
  obtain ⟨second, more, first⟩ := starts _ _ _ found
  rw [Tree.sources, List.drop_append_of_le_length (by omega)] at first
  cases rest : item.source.drop start with
  | nil =>
    rw [List.drop_eq_nil_iff] at rest
    exact inside rest
  | cons c behind =>
    rw [rest] at first
    injection first with slash
    subst slash
    have member : '/' ∈ item.source.drop start := rest ▸ List.mem_cons_self
    exact noSlash item (ends.subset List.mem_cons_self) raw (List.mem_of_mem_drop member)

/-- Where every part is shown, what stands raw are blanks. -/
theorem shown_noSlash {items : List Tree} (shown : List.Forall₂ Shows parts items)
    (arranged : Each (Fits depth) parts) :
    ∀ item ∈ items, ¬ item.isToken = true → '/' ∉ item.source := by
  induction shown with
  | nil => exact nofun
  | @cons part item parts items first behind inductionHypothesis =>
    obtain ⟨⟨formed, -⟩, inBehind⟩ := arranged
    refine List.forall_mem_cons.mpr ⟨?_, inductionHypothesis inBehind⟩
    intro raw slash
    cases first with
    | gap text =>
      have blank := formed.2 '/' slash
      exact absurd blank (by decide)
    | name | value | script | spread | ending => exact raw rfl

/-- Every item shows a part where every part is shown. -/
theorem part_of_item {items : List Tree} (shown : List.Forall₂ Shows parts items) :
    ∀ item ∈ items, ∃ part, Shows part item := by
  induction shown with
  | nil => exact List.forall_mem_nil _
  | cons first behind inductionHypothesis =>
    exact List.forall_mem_cons.mpr ⟨⟨_, first⟩, inductionHypothesis⟩

/-- Where every part is shown, the rules for comments have made nothing. -/
theorem comment_unmade {rule : Rule} (isComment : rule = blockComment ∨ rule = lineComment)
    {items result : List Tree} (shown : List.Forall₂ Shows parts result)
    (applied : applyRule rule (makeWith splitInside root "comment" rule) items = .ok result) :
    result = items := by
  have named : rule.kindFor? "comment" = some .comment := by
    rcases isComment with rfl | rfl <;> rfl
  have greedy : rule.greedy = true := by
    rcases isComment with rfl | rfl <;> rfl
  rw [applyRule, if_pos greedy] at applied
  refine (steps_of_splitGreedy applied).of_unmade ?_
  intro item member text made
  obtain ⟨content, rfl⟩ := token_of_makeWith named made
  obtain ⟨part, shows⟩ := part_of_item shown _ member
  cases shows

/-! ## All rules together -/

/-- What the rules behind the name of a tag make of a text, rule by rule. -/
structure BehindName (splitInside : RuleSet → Text → Except SplitError (List Tree)) (root : RuleSet)
    (depth : Nat) (text : Text) (scripts spreads values endings names result : List Tree) :
    Prop where
  scripted : EachSteps (findWith (scriptRule depth))
    (makeWith splitInside root "script" (scriptRule depth)) (raw text) scripts
  spread : EachSteps (findWith (spreadRule depth))
    (makeWith splitInside root "spread" (spreadRule depth)) scripts spreads
  valued : EachSteps (findWith valueRule) (makeWith splitInside root "attr-value" valueRule)
    spreads values
  ended : EachSteps (findWith endingRule) (makeWith splitInside root "punctuation" endingRule)
    values endings
  named : EachSteps (findWith attrNameRule) (makeWith splitInside root "attr-name" attrNameRule)
    endings names
  commented : ∃ blocks,
    applyRule blockComment (makeWith splitInside root "comment" blockComment) names = .ok blocks ∧
      applyRule lineComment (makeWith splitInside root "comment" lineComment) blocks = .ok result

/-- The rules behind the name of a tag are tried one after the other. -/
theorem behindName_of_run {text : Text} {result : List Tree}
    (run : (behindName depth).foldlM (fun items (name, rule) =>
      applyRule rule (makeWith splitInside root name rule) items) (raw text) = .ok result) :
    ∃ scripts spreads values endings names,
      BehindName splitInside root depth text scripts spreads values endings names result := by
  simp only [behindName_rules, List.foldlM_cons, List.foldlM_nil, Outcome.bind_eq_ok] at run
  obtain ⟨scripts, scripted, spreads, spread, values, valued, endings, ended, names, named, blocks,
    blocked, lines, lined, same⟩ := run
  cases same
  exact ⟨scripts, spreads, values, endings, names, steps_of_splitEach scripted,
    steps_of_splitEach spread, steps_of_splitEach valued, steps_of_splitEach ended,
    steps_of_splitEach named, blocks, blocked, lined⟩

section

variable {text : Text} {scripts spreads values endings names result : List Tree}
  (run : BehindName splitInside root depth text scripts spreads values endings names result)
include run

/-- Every part of a tag is shown if the first two rules find nothing but what they are for. -/
theorem shows_of_undisturbed (same : textOf parts = text) (arranged : Each (Fits depth) parts)
    (undisturbed : Undisturbed depth parts) : List.Forall₂ Shows parts result := by
  have start : Stage Shows [] parts (raw text) := same ▸ .rest nofun
  have scripted := stage_script start arranged undisturbed.scripts run.scripted
  have spread := stage_spread scripted arranged undisturbed.spreads run.spread
  have named := stage_others spread arranged run.valued run.ended run.named
  have shown := shows_of_stage named arranged
  have noSlash := shown_noSlash shown arranged
  obtain ⟨blocks, blocked, lined⟩ := run.commented
  cases applyRule_comment (.inl rfl) noSlash blocked
  cases applyRule_comment (.inr rfl) noSlash lined
  exact shown

/-- If every part of a tag is shown, the first two rules found nothing but what they are for. -/
theorem undisturbed_of_shows (arranged : Each (Fits depth) parts)
    (shown : List.Forall₂ Shows parts result) : Undisturbed depth parts := by
  have filled := arranged_filled arranged
  obtain ⟨blocks, blocked, lined⟩ := run.commented
  cases comment_unmade (.inr rfl) shown lined
  cases comment_unmade (.inl rfl) shown blocked
  -- forward, each rule adds tokens of its own kind only
  have start : Settled Shows [] (raw text) := .rest text
  have scripted := start.grow script_makes run.scripted
  have spread := scripted.grow spread_makes run.spread
  have valued := spread.grow value_makes run.valued
  have ended := valued.grow ending_makes run.ended
  -- backward, the tokens of each kind are the parts of a role
  have names := stage_of_shows shown arranged
  have endings := ended.back name_makes (by decide) filled run.named names
  have values := valued.back ending_makes (by decide) filled run.ended endings
  have spreads := spread.back value_makes (by decide) filled run.valued values
  obtain ⟨scripts, noSpread⟩ := scripted.back_quiet (spread_scanner depth) rfl spread_makes
    (by decide) filled run.spread spreads
  obtain ⟨-, noScript⟩ := start.back_quiet (script_scanner depth) rfl script_makes
    (by decide) filled run.scripted scripts
  refine ⟨noScript.mono ?_, noSpread.mono ?_⟩
  · intro part later quiet role
    refine quiet ?_
    rcases role with role | role <;> simp [role]
  · intro part later quiet role
    refine quiet ?_
    simp [role]

end

/-- Whatever keywords and depth the templ grammar is composed with, a text that is one whole tag is
split into one token, which starts with the token of the mark and the name. What follows there shows
the parts of the tag, for every derivation of it without comments in its space, if and only if no
brace group seems to start inside a quoted value or a spread and no spread inside a quoted value.

Proof: each rule leads from one stage of the parts to the next, if it finds the parts of its role
and nothing else. The rules for brace groups and spreads come first and might find more; the others
cannot, since they come to parts without their marks. Conversely the tokens of each kind tell what
its rule has found, and it would have found the first thing that disturbs. -/
theorem tag_contents (keywords : List Text) (depth : Nat) (text : Text)
    (whole : (Pattern.tag depth).matchFrom text 0 = .ok (some ⟨0, text.length, none⟩)) :
    ∃ grammar content name later, composed keywords depth = .ok grammar ∧
      grammar.tokenize text = .ok [
        .token .tag (.list (.token .tagName content [] (some name) :: later)) [] (some text)] ∧
      (∃ tag : TagDerivation depth, tag.text = text) ∧
      ∀ tag : TagDerivation depth, tag.text = text → BlankSpace tag →
        name = tag.mark ++ tag.name ∧
          (Undisturbed depth (tagParts tag) ↔ List.Forall₂ Shows (tagParts tag) later) := by
  obtain ⟨derived, rfl⟩ := derivation_of_whole whole
  obtain ⟨lower, parts, later, split, -, -⟩ := tokenize_tag_run derived keywords
  refine ⟨grammar keywords depth, _, _, later, composed_grammar keywords depth, split,
    ⟨derived, rfl⟩, ?_⟩
  intro tag same blank
  obtain ⟨otherLower, otherParts, otherLater, otherSplit, -, run⟩ := tokenize_tag_run tag keywords
  rw [same, split] at otherSplit
  have token : tagToken derived parts later = tagToken tag otherParts otherLater := by
    injection otherSplit with items
    injection items
  injection token with _ items
  injection items with items
  injection items with named behind
  injection named with _ _ _ name
  subst behind
  obtain ⟨scripts, spreads, values, endings, names, run⟩ := behindName_of_run run
  have arranged : Each (Fits depth) (tagParts tag) := tagParts_arranged blank
  exact ⟨Option.some.inj name, shows_of_undisturbed run (textOf_tagParts tag) arranged,
    undisturbed_of_shows run arranged⟩

/-- A tag whose value seems to contain an attribute. -/
def crossedTag : TagDerivation 2 := quotedTag "=\x7bx\x7d".toList (escaped_of_plain (by simp))

/-- A tag whose value is a letter. -/
def plainTag : TagDerivation 2 := quotedTag ['x'] (escaped_of_plain (by simp))

/-- In the first of these tags, a brace group seems to start inside the value. -/
theorem crossed_disturbed : ¬ Undisturbed 2 (tagParts crossedTag) := by
  intro undisturbed
  obtain ⟨-, -, inValue, -⟩ := undisturbed.scripts
  have missed : (scriptRule 2).pattern.after? "=\x7bx\x7d\">".toList = .ok none :=
    inValue (.inl rfl) "=\x7bx\x7d\"".toList ⟨"=\"".toList, rfl⟩ (List.cons_ne_nil _ _)
  cases missed

/-- In the second one, nothing seems to start there. -/
theorem plain_undisturbed : Undisturbed 2 (tagParts plainTag) := by
  have value : ∀ rest, rest <:+ ['=', '"', 'x', '"'] → rest ≠ [] →
      (scriptRule 2).pattern.after? (rest ++ ['>']) = .ok none ∧
        (spreadRule 2).pattern.after? (rest ++ ['>']) = .ok none := by
    intro rest ends filled
    simp only [List.suffix_cons_iff, List.suffix_nil] at ends
    rcases ends with rfl | rfl | rfl | rfl | rfl
    · exact ⟨rfl, rfl⟩
    · exact ⟨rfl, rfl⟩
    · exact ⟨rfl, rfl⟩
    · exact ⟨rfl, rfl⟩
    · exact absurd rfl filled
  refine ⟨⟨nofun, nofun, fun _ rest ends filled => (value rest ends filled).1, nofun, trivial⟩,
    ⟨nofun, nofun, fun _ rest ends filled => (value rest ends filled).2, nofun, trivial⟩⟩

/-- A value that seems to contain an attribute is not shown, and one that does not is. -/
theorem tag_contents_quoted :
    crossedTag.text = "<a b=\"=\x7bx\x7d\">".toList ∧ plainTag.text = "<a b=\"x\">".toList ∧
      (∃ grammar name later, composed [] 2 = .ok grammar ∧
        grammar.tokenize crossedTag.text =
          .ok [.token .tag (.list (name :: later)) [] (some crossedTag.text)] ∧
        ¬ List.Forall₂ Shows (tagParts crossedTag) later) ∧
      ∃ grammar name later, composed [] 2 = .ok grammar ∧
        grammar.tokenize plainTag.text =
          .ok [.token .tag (.list (name :: later)) [] (some plainTag.text)] ∧
        List.Forall₂ Shows (tagParts plainTag) later := by
  have crossedBlank : BlankSpace crossedTag := by
    rintro _ ⟨⟩
    exact ⟨nofun, by decide⟩
  have plainBlank : BlankSpace plainTag := by
    rintro _ ⟨⟩
    exact ⟨nofun, by decide⟩
  obtain ⟨grammar, content, name, later, made, split, -, contents⟩ :=
    tag_contents [] 2 crossedTag.text (whole_of_derivation crossedTag)
  obtain ⟨other, otherContent, otherName, otherLater, otherMade, otherSplit, -, others⟩ :=
    tag_contents [] 2 plainTag.text (whole_of_derivation plainTag)
  obtain ⟨-, exactly⟩ := contents crossedTag rfl crossedBlank
  obtain ⟨-, otherExactly⟩ := others plainTag rfl plainBlank
  exact ⟨rfl, rfl,
    ⟨grammar, _, later, made, split, fun shown => crossed_disturbed (exactly.mpr shown)⟩,
    other, _, otherLater, otherMade, otherSplit, otherExactly.mp plain_undisturbed⟩

end TemplHighlight.Templ
