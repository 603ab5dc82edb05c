import TemplHighlight.Proofs.Document.Syntax
import TemplHighlight.Proofs.Pattern.Passed
import TemplHighlight.Proofs.Templ.TagContents

/-!
# The tokens of a document

What the templ grammar makes of a text in which every `<` starts a tag without attributes, and no
comment or quotation starts anywhere: the tags are tokens, then every brace is one by itself, and
what is left are raw texts and tokens without items of their own, none of which reaches over a tag
or a brace. This is followed from rule to rule. The rules before the rule for tags find nothing; that
rule takes every tag; the rules up to the one for marks cannot take a brace, since none of their
expressions can; and the rule for marks takes every brace that is still raw, and these are all of
them.
-/

namespace TemplHighlight.Document

open Grammar Split TagLanguage Templ

/-- The mark in front of the name of a tag. -/
def tagMark (closing : Bool) : Text := if closing then ['<', '/'] else ['<']

/-- The token of a brace. -/
def brace (c : Char) : Tree := .token .punctuation (.text [c]) [] (some [c])

/-- The token of a tag that has a name and nothing else. -/
inductive ShowsTag (closing : Bool) (name : Run Tag.isNameChar) : Tree → Prop where
  | token (parts : List Tree) (loose : ∀ part ∈ parts, Loose part)
      (named : Tree.sources parts = name.chars) :
      ShowsTag closing name (.token .tag (.list [
        .token .tagName (.list (
          .token .punctuation (.text (tagMark closing)) [] (some (tagMark closing)) :: parts)) []
          (some (tagMark closing ++ name.chars)),
        .token .punctuation (.text ['>']) [] (some ['>'])]) [] (some (tagText closing name)))

/-- What the items of a document are. Certain characters are not left raw. -/
inductive Good (taken : Text) : Tree → Prop where
  | raw (text : Text) (others : ∀ c ∈ text, c ∉ taken) : Good taken (.text text)
  | tag (closing : Bool) (name : Run Tag.isNameChar) {token : Tree}
      (shows : ShowsTag closing name token) : Good taken token
  | brace {c : Char} (isBrace : c = '{' ∨ c = '}') : Good taken (brace c)
  | token {kind : TokenKind} (text : Text) (aliases : List String) (notTag : kind ≠ .tag)
      (notPlain : kind ≠ .plainText) (others : ∀ c ∈ text, c ∉ marks) :
      Good taken (.token kind (.text text) aliases (some text))

variable {keywords : List Text} {depth : Nat} {root : RuleSet} {fuel : Nat} {text : Text}

/-! ## The rules up to the rule for tags -/

/-- The rules before the rule for tags find nothing. -/
theorem beforeTag_nothing (harmless : Throughout Harmless text []) :
    ∀ entry ∈ listed beforeTag, ∀ start stop,
      findWith entry.2 text ≠ .ok (some (start, stop)) := by
  intro entry member start stop found
  obtain ⟨first, second, rest, split, pair⟩ := beforeTag_starts entry member _ _ _ found
  have here := harmless _ (List.drop_suffix start text) (by simp [split])
  rw [List.append_nil, split] at here
  rcases pair with ⟨rfl, rfl | rfl⟩ | ⟨rfl, declared⟩
  · exact here.noBlockComment ⟨rest, rfl⟩
  · exact here.noLineComment ⟨rest, rfl⟩
  · obtain ⟨closing, name, follow, same⟩ := here.tag _ rfl
    obtain ⟨c, later, chars, isName⟩ := run_head name
    have notInner : ¬ (second = '/' ∨ Tag.isNameChar second = true) := by
      rcases declared with rfl | rfl <;> decide
    rw [tagText, chars] at same
    cases closing with
    | true =>
      injection same with _ same
      injection same with same
      exact notInner (.inl same)
    | false =>
      injection same with _ same
      injection same with same
      exact notInner (.inr (same ▸ isName))

/-- So they change nothing. -/
theorem beforeTag_same {make : String → Rule → Maker} (harmless : Throughout Harmless text [])
    {items : List Tree}
    (run : (listed beforeTag).foldlM
      (fun items (name, rule) => applyRule rule (make name rule) items) (raw text) = .ok items) :
    items = raw text := by
  refine Outcome.foldlM_keeps (fun items => items = raw text) ?_ run rfl
  rintro before after ⟨name, rule⟩ member rfl applied
  have greedy : rule.greedy = true := by
    have all : (listed beforeTag).all (fun entry => entry.2.greedy) = true := rfl
    exact List.all_eq_true.mp all _ member
  have split : applyRule rule (make name rule) (raw text) = .ok after := applied
  rw [applyRule, if_pos greedy] at split
  refine (steps_of_splitGreedy split).same ?_
  intro item later ends isRaw start stop found
  have alone : Tree.sources (item :: later) = text := by
    cases text with
    | nil => cases List.eq_nil_of_suffix_nil ends
    | cons c rest =>
      rcases List.suffix_cons_iff.mp ends with same | none
      · rw [same]
        exact List.append_nil _
      · cases List.suffix_nil.mp none
  rw [alone] at found
  exact absurd found (beforeTag_nothing harmless _ member start stop)

/-- The rule for tags scans from `<` to `<`. -/
theorem tag_scanner (depth : Nat) : (tagRule depth).pattern.Scanner '<' :=
  Pattern.scanner_of_scans rfl rfl

/-- A tag is found where one starts. -/
theorem tag_after (closing : Bool) (name : Run Tag.isNameChar) (follow : Text) :
    (tagRule depth).pattern.after? (tagText closing name ++ follow) = .ok (some follow) := by
  refine congrArg Except.ok ((tag_exact depth _ follow).mpr ⟨bareTag depth closing name, ?_⟩)
  rw [text_bareTag]

/-- Where no tag is found, none starts. -/
theorem noOpen_of_quiet {follow : Text} (harmless : Throughout Harmless text follow)
    (quiet : (tagRule depth).pattern.Quiet text follow) : ∀ c ∈ text, c ∉ ['<'] := by
  intro c member listed
  rw [List.mem_singleton.mp listed] at member
  obtain ⟨front, back, rfl⟩ := List.append_of_mem member
  have ends : '<' :: back <:+ front ++ '<' :: back := List.suffix_append _ _
  obtain ⟨closing, name, behind, split⟩ :=
    (harmless _ ends (List.cons_ne_nil _ _)).tag (back ++ follow) rfl
  have missed : (tagRule depth).pattern.after? ('<' :: back ++ follow) = .ok none :=
    quiet _ ends (List.cons_ne_nil _ _)
  rw [split, tag_after] at missed
  cases missed

/-- What the rule for tags finds is the text of a tag, with no other tag in front of it. -/
theorem tag_cut (harmless : Throughout Harmless text []) {start stop : Nat}
    (found : findWith (tagRule depth) text = .ok (some (start, stop))) (ordered : start < stop) :
    (∀ c ∈ text.take start, c ∉ ['<']) ∧
      (∃ closing name, (text.take stop).drop start = tagText closing name) ∧
      Throughout Harmless (text.drop stop) [] := by
  obtain ⟨quiet, behind, matched, stops⟩ := findWith_scanned (tag_scanner depth) rfl found
  have halves : text.take start ++ text.drop start = text := List.take_append_drop start text
  rw [← halves, throughout_append, List.append_nil] at harmless
  obtain ⟨inFront, inRest⟩ := harmless
  refine ⟨noOpen_of_quiet inFront quiet, ?_⟩
  obtain ⟨tag, split⟩ := (tag_exact depth _ behind).mp (Except.ok.inj matched)
  have here := inRest _ List.suffix_rfl (by simp [split, TagDerivation.text])
  rw [List.append_nil] at here
  obtain ⟨closing, name, follow, same⟩ := here.tag _ split
  have isFollow : behind = follow := by
    rw [same, tag_after] at matched
    cases matched
    rfl
  have length : stop - start = (tagText closing name).length := by
    rw [stops, same, isFollow, List.length_append]
    omega
  have behindTag : text.drop stop = follow := by
    have place : stop = start + (tagText closing name).length := by omega
    rw [place, ← List.drop_drop, same, List.drop_left]
  refine ⟨⟨closing, name, ?_⟩, ?_⟩
  · rw [List.drop_take, same, length, List.take_left]
  · rw [same, throughout_append] at inRest
    rw [behindTag]
    exact inRest.2

/-! ## The token of a tag -/

/-- The only part of such a tag behind its name is its end, and nothing disturbs it. -/
theorem shows_ending {lower : Nat} {later : List Tree} (closing : Bool)
    (name : Run Tag.isNameChar)
    (run : (behindName depth).foldlM (fun items (name, rule) =>
      applyRule rule (makeWith (splitWith root lower) root name rule) items)
      (raw (bareTag depth closing name).behindName) = .ok later) :
    later = [.token .punctuation (.text ['>']) [] (some ['>'])] := by
  obtain ⟨scripts, spreads, values, endings, names, steps⟩ := behindName_of_run run
  have parts : tagParts (bareTag depth closing name) = [⟨.ending, ['>']⟩] := rfl
  have blank : BlankSpace (bareTag depth closing name) := by
    rintro _ ⟨⟩
    exact ⟨nofun, nofun⟩
  have undisturbed : Undisturbed depth (tagParts (bareTag depth closing name)) :=
    ⟨⟨nofun, trivial⟩, ⟨nofun, trivial⟩⟩
  have shown := shows_of_undisturbed steps (textOf_tagParts _) (tagParts_arranged blank) undisturbed
  rw [parts] at shown
  cases shown with
  | cons first behind =>
    cases behind
    cases first
    rfl

/-- The token that is made of the text of a tag shows the tag. -/
theorem showsTag_of_makeWith (closing : Bool) (name : Run Tag.isNameChar) {token : Tree}
    (made : makeWith (splitWith (grammar keywords depth) fuel) (grammar keywords depth) "tag"
      (tagRule depth) (tagText closing name) = .ok token) : ShowsTag closing name token := by
  obtain ⟨items, split, rfl⟩ := nested_of_makeWith rfl rfl made
  rw [← text_bareTag depth] at split
  obtain ⟨lower, parts, later, rfl, named, loose, run⟩ := split_tag (bareTag depth closing name)
    (only_keeps (grammar_usable keywords depth)) (only_tagInside keywords depth) split
  cases shows_ending closing name run
  exact .token parts loose named

/-! ## From rule to rule -/

/-- The rule for tags makes a token of every tag. -/
theorem good_tags (harmless : Throughout Harmless text []) {items : List Tree}
    (applied : applyRule (tagRule depth)
      (makeWith (splitWith (grammar keywords depth) fuel) (grammar keywords depth) "tag"
        (tagRule depth)) (raw text) = .ok items) :
    ∀ item ∈ items, Good ['<'] item := by
  have greedy : (tagRule depth).greedy = true := rfl
  rw [applyRule, if_pos greedy] at applied
  have inside : ∀ text start stop, findWith (tagRule depth) text = .ok (some (start, stop)) →
      start < stop → start < text.length := by
    intro text start stop found ordered
    have keeps : (tagRule depth).pattern.KeepsToText := trivial
    exact Nat.lt_of_lt_of_le ordered (findWith_stays keeps text start stop found)
  have steps := (steps_of_splitGreedy applied).alone inside
  refine steps.forall_items (fun text (harmless : Throughout Harmless text []) missed => ?missed)
    ?cut harmless
  case missed =>
    exact .raw text (noOpen_of_quiet harmless (findWith_nothing (tag_scanner depth) rfl missed))
  case cut =>
    intro text start stop harmless found ordered
    obtain ⟨others, ⟨closing, name, isTag⟩, rest⟩ := tag_cut harmless found ordered
    refine ⟨.raw _ others, fun token made => ?_, rest⟩
    rw [isTag] at made
    exact .tag closing name (showsTag_of_makeWith closing name made)

/-- The characters that groups start and end with. -/
def braces : Text := ['{', '}']

/-- A rule whose tokens take no braces, or one for quotations. -/
inductive Calm (entry : String × Rule) : Prop where
  | loose {shape : Regex} {anyCase : Bool} {written : Text} (loose : makesLoose entry = true)
      (pattern : entry.2.pattern = .regex shape anyCase written)
      (avoids : shape.avoids anyCase braces = true) : Calm entry
  | quoted {shape : Regex} {written : Text} (greedy : entry.2.greedy = true)
      (pattern : entry.2.pattern = .regex shape false written)
      (needed : shape.needs quotes = true) : Calm entry

/-- The rules behind the rule for tags, up to the rule for marks. -/
def beforeMarks (keywords : List Text) : List (String × List Rule) := (behindTag keywords).take 8

/-- The rule for marks. -/
def marksRule : Rule := { pattern := Clike.punctuationPattern }

/-- The rule for predeclared names. -/
def builtinRule : Rule := { pattern := .words (Go.builtins.map String.toList) }

/-- The rules behind the rule for tags. -/
theorem behindTag_split (keywords : List Text) :
    listed (behindTag keywords) = listed (beforeMarks keywords) ++
      [("punctuation", marksRule), ("builtin", builtinRule)] :=
  rfl

/-- Words take no braces if none of them has one. -/
theorem avoids_words {words : List String} (plain : (words.all fun word =>
    word.toList.all fun c => !braces.contains c) = true) :
    (Regex.wholeWord (words.map String.toList)).avoids false braces = true := by
  refine Regex.avoids_wholeWord fun word listed c member isBrace => ?_
  obtain ⟨written, isWord, rfl⟩ := List.mem_map.mp listed
  have others := List.all_eq_true.mp (List.all_eq_true.mp plain written isWord) c member
  simp [isBrace] at others

/-- The rule for keywords is calm if there are no braces in the further keywords. -/
theorem keywordRule_calm (others : ∀ word ∈ keywords, ∀ c ∈ word, c ∉ braces) :
    Calm ("keyword", keywordRule keywords) := by
  have ofGo : (Regex.wholeWord (Go.keywords.map String.toList)).avoids false braces = true :=
    avoids_words (by decide)
  cases keywords with
  | nil => exact .loose rfl rfl ofGo
  | cons keyword more =>
    exact .loose rfl rfl (Bool.and_eq_true_iff.mpr ⟨ofGo, Regex.avoids_wholeWord others⟩)

/-- The rules before the rule for marks are calm. -/
theorem beforeMarks_calm (others : ∀ word ∈ keywords, ∀ c ∈ word, c ∉ braces) :
    ∀ entry ∈ listed (beforeMarks keywords), Calm entry := by
  refine List.forall_mem_cons.mpr ⟨?namedEntity, List.forall_mem_cons.mpr ⟨?numericEntity,
    List.forall_mem_cons.mpr ⟨?char, List.forall_mem_cons.mpr ⟨?string,
      List.forall_mem_cons.mpr ⟨?keyword, List.forall_mem_cons.mpr ⟨?boolean,
        List.forall_mem_cons.mpr ⟨?function, List.forall_mem_cons.mpr ⟨?binary,
          List.forall_mem_cons.mpr ⟨?hex, List.forall_mem_cons.mpr ⟨?decimal,
            List.forall_mem_cons.mpr ⟨?operator, nofun⟩⟩⟩⟩⟩⟩⟩⟩⟩⟩⟩
  case char => exact .quoted rfl rfl rfl
  case string => exact .quoted rfl rfl rfl
  case keyword => exact keywordRule_calm others
  all_goals exact .loose rfl rfl rfl

/-- The rule for predeclared names is calm. -/
theorem builtinRule_calm : Calm ("builtin", builtinRule) :=
  .loose rfl rfl (avoids_words (by decide))

/-- A rule for quotations changes nothing where there are no quotes. -/
theorem same_quoted {rule : Rule} {shape : Regex} {written : Text} {make : Maker}
    (greedy : rule.greedy = true) (pattern : rule.pattern = .regex shape false written)
    (needed : shape.needs quotes = true) {items result : List Tree}
    (noQuote : ∀ c ∈ Tree.sources items, c ∉ quotes)
    (applied : applyRule rule make items = .ok result) : result = items := by
  rw [applyRule, if_pos greedy] at applied
  refine (steps_of_splitGreedy applied).same ?_
  rintro item later ⟨passed, rfl⟩ isRaw start stop found
  obtain ⟨result, searched, -⟩ := search_of_findWith found
  rw [Tree.sources_append] at noQuote
  rw [pattern, Pattern.search_needs (.inl rfl) needed (List.forall_mem_append.mp noQuote).2] at searched
  cases searched

/-- A good item that is no token is a raw text without the characters that are not left raw. -/
theorem raw_of_good {taken : Text} {item : Tree} (good : Good taken item)
    (isRaw : ¬ item.isToken = true) : ∀ c ∈ item.source, c ∉ taken := by
  cases good with
  | raw text others => exact others
  | tag closing name shows =>
    cases shows
    exact absurd rfl isRaw
  | brace | token => exact absurd rfl isRaw

/-- What a rule for loose tokens makes is good, if raw texts hold no opening mark. -/
theorem good_loose {taken : Text} (opens : '<' ∈ taken) {name : String} {rule : Rule}
    {shape : Regex} {anyCase : Bool} {written : Text}
    (loose : makesLoose (name, rule) = true) (pattern : rule.pattern = .regex shape anyCase written)
    (avoids : shape.avoids anyCase braces = true)
    {splitInside : RuleSet → Text → Except SplitError (List Tree)} {items result : List Tree}
    (good : ∀ item ∈ items, Good taken item)
    (applied : applyRule rule (makeWith splitInside root name rule) items = .ok result) :
    ∀ item ∈ result, Good taken item := by
  obtain ⟨plain, lookbehind⟩ : rule.greedy = false ∧ rule.lookbehind = false := by
    simp only [makesLoose, Bool.and_eq_true, Bool.not_eq_true'] at loose
    exact ⟨loose.1.1.1, loose.1.1.2⟩
  rw [applyRule, plain] at applied
  have steps := steps_of_splitEach applied
  refine steps.forall_items (fun text (others : ∀ c ∈ text, c ∉ taken) _ => .raw text others)
    ?cut ?before
  case cut =>
    intro text start stop others found ordered
    obtain ⟨found, searched, rfl, -, same⟩ := search_of_findWith found
    rw [pattern] at searched
    have noBrace := Pattern.search_avoids avoids searched
    rw [same lookbehind] at noBrace
    refine ⟨.raw _ fun c member => others c (List.mem_of_mem_take member), ?_,
      fun c member => others c (List.mem_of_mem_drop member)⟩
    intro token made
    obtain ⟨kind, notTag, notPlain, rfl⟩ := loose_of_makeWith loose made
    refine .token _ _ notTag notPlain fun c member => ?_
    have notTaken := others c (List.mem_of_mem_take (List.mem_of_mem_drop member))
    have notBrace := noBrace c member
    intro isMark
    rcases List.mem_cons.mp isMark with rfl | isBrace
    · exact notTaken opens
    · exact notBrace isBrace
  case before =>
    exact fun item member => ⟨fun _ => good item member, raw_of_good (good item member)⟩

/-- A calm rule leaves items good, if raw texts hold no opening mark and there are no quotes. -/
theorem good_calm {taken : Text} (opens : '<' ∈ taken) {name : String} {rule : Rule}
    (calm : Calm (name, rule)) {splitInside : RuleSet → Text → Except SplitError (List Tree)}
    {items result : List Tree} (noQuote : ∀ c ∈ Tree.sources items, c ∉ quotes)
    (good : ∀ item ∈ items, Good taken item)
    (applied : applyRule rule (makeWith splitInside root name rule) items = .ok result) :
    ∀ item ∈ result, Good taken item := by
  cases calm with
  | quoted greedy pattern needed =>
    rw [same_quoted greedy pattern needed noQuote applied]
    exact good
  | loose loose pattern avoids => exact good_loose opens loose pattern avoids good applied

/-- The characters that are marks to the rule for them. -/
def markSet : CharSet := .among "\x7b\x7d[];(),.:".toList

/-- Braces are such marks. -/
theorem marks_of_others {c : Char} (notOpen : c ∉ ['<']) (other : markSet.has false c = false) :
    c ∉ marks := by
  intro isMark
  rcases List.mem_cons.mp isMark with rfl | isBrace
  · exact notOpen List.mem_cons_self
  · rcases List.mem_cons.mp isBrace with rfl | isClosing
    · exact absurd other (by decide)
    · rw [List.mem_singleton.mp isClosing] at other
      exact absurd other (by decide)

/-- The rule for marks makes a token of every brace that is still raw. -/
theorem good_marks {splitInside : RuleSet → Text → Except SplitError (List Tree)}
    {items result : List Tree} (good : ∀ item ∈ items, Good ['<'] item)
    (applied : applyRule marksRule (makeWith splitInside root "punctuation" marksRule) items =
      .ok result) :
    ∀ item ∈ result, Good marks item := by
  have pattern : marksRule.pattern =
      .regex (.one markSet) false "[\x7b\x7d\\[\\];(),.:]".toList := rfl
  have steps : EachSteps (findWith marksRule) (makeWith splitInside root "punctuation" marksRule)
      items result := steps_of_splitEach applied
  refine steps.forall_items (fun text (noOpen : ∀ c ∈ text, c ∉ ['<']) missed => ?missed)
    ?cut ?before
  case missed =>
    have others := one_missed pattern rfl missed
    exact .raw text fun c member => marks_of_others (noOpen c member) (others c member)
  case cut =>
    intro text start stop noOpen found ordered
    obtain ⟨front, c, rest, rfl, others, isMember, rfl, rfl⟩ := one_found pattern rfl found
    have here : ((front ++ c :: rest).take (front.length + 1)).drop front.length = [c] := by
      rw [List.drop_take, List.drop_left]
      simp
    refine ⟨?_, fun token made => ?_, fun d member => noOpen d (List.mem_of_mem_drop member)⟩
    · rw [List.take_left]
      exact .raw front fun d member =>
        marks_of_others (noOpen d (List.mem_append_left _ member)) (others d member)
    · rw [here] at made
      rw [leaf_of_makeWith rfl rfl made]
      by_cases isBrace : c = '{' ∨ c = '}'
      · exact .brace isBrace
      · refine .token _ _ nofun nofun fun d member isMark => ?_
        rw [List.mem_singleton.mp member] at isMark
        have notOpen : c ∉ ['<'] := noOpen c (by simp)
        rcases List.mem_cons.mp isMark with rfl | inBraces
        · exact notOpen List.mem_cons_self
        · exact isBrace (by simpa using inBraces)
  case before =>
    intro item member
    refine ⟨fun isToken => ?_, fun isRaw => ?_⟩
    · cases good item member with
      | raw => cases isToken
      | tag closing name shows => exact .tag closing name shows
      | brace isBrace => exact .brace isBrace
      | token text aliases notTag notPlain others => exact .token text aliases notTag notPlain others
    · exact raw_of_good (good item member) isRaw

/-! ## All rules together -/

/-- A text in which every opening mark starts a tag, and nothing starts a comment or a quotation, is
split into good items. -/
theorem good_items (others : ∀ word ∈ keywords, ∀ c ∈ word, c ∉ braces)
    (harmless : Throughout Harmless text []) (noQuote : ∀ c ∈ text, c ∉ quotes) {items : List Tree}
    (split : (grammar keywords depth).tokenize text = .ok items) :
    Covers text items ∧ ∀ item ∈ items, Good marks item := by
  have ofRoot := only_keeps (grammar_usable keywords depth)
  refine ⟨splitWith_covers _ ofRoot ofRoot split, ?_⟩
  obtain ⟨lower, -, run⟩ := splitWith_ok split
  have tried : ∀ entry ∈ listed beforeTag ++ ("tag", tagRule depth) :: listed (behindTag keywords),
      entry ∈ RuleSet.chainRules (grammar keywords depth) (grammar keywords depth) :=
    fun entry member => rules_of_grammar keywords depth ▸ member
  simp only [rules_of_grammar, behindTag_split, List.foldlM_append, List.foldlM_cons,
    List.foldlM_nil, Outcome.bind_eq_ok] at run
  obtain ⟨front, beforeRun, tags, tagged, calm, calmRun, marked, marksApplied, built, builtApplied,
    same⟩ := run
  cases same
  cases beforeTag_same harmless beforeRun
  have tagsCovered : Covers text tags :=
    tried_covers ofRoot ofRoot (tried ("tag", tagRule depth) (by simp)) tagged (covers_raw text)
  have calmed : Covers text calm ∧ ∀ item ∈ calm, Good ['<'] item := by
    refine Outcome.foldlM_keeps (fun items => Covers text items ∧ ∀ item ∈ items, Good ['<'] item)
      ?_ calmRun ⟨tagsCovered, good_tags harmless tagged⟩
    rintro before after ⟨name, rule⟩ member ⟨covers, good⟩ applied
    have isTried := tried (name, rule) (by simp [behindTag_split, member])
    refine ⟨tried_covers ofRoot ofRoot isTried applied covers, ?_⟩
    exact good_calm List.mem_cons_self (beforeMarks_calm others _ member)
      (covers.sources.symm ▸ noQuote) good applied
  have markedCovered : Covers text marked :=
    tried_covers ofRoot ofRoot (tried ("punctuation", marksRule) (by simp [behindTag_split]))
      marksApplied calmed.1
  exact good_calm List.mem_cons_self builtinRule_calm (markedCovered.sources.symm ▸ noQuote)
    (good_marks calmed.2 marksApplied) builtApplied

end TemplHighlight.Document
