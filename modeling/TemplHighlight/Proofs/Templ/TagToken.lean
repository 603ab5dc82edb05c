import TemplHighlight.Proofs.Split.Items
import TemplHighlight.Proofs.Templ.TagStart
import TemplHighlight.Proofs.Templ.Total

/-!
# The token of a tag

The templ grammar makes one token of a whole tag, whatever the tag contains. The token starts with
the tag's name: a tag-name token that starts with the opening mark and covers the mark and the name
that the grammar of tags says. This is followed from the first rule to the last: the rules before
the rule for tags leave the start of the tag raw, that rule takes everything in again, and those
behind it find nothing but a token. Inside the tag the rule for names comes first, and inside the
name the rule for the opening mark.
-/

namespace TemplHighlight.Templ

open Regex Split TagLanguage

variable {depth : Nat} (tag : TagDerivation depth)

/-! ## What the first rules find -/

/-- The rule for tags finds a whole tag. -/
theorem tag_found : findWith (tagRule depth) tag.text = .ok (some (0, tag.text.length)) := by
  have whole : Tag.after? depth tag.text = some [] :=
    (tag_exact depth tag.text []).mpr ⟨tag, (List.append_nil _).symm⟩
  obtain ⟨rest, head⟩ := tag.text_head
  have searched : (tagRule depth).pattern.search tag.text =
      .ok (some ⟨0, tag.text.length, none⟩) := by
    show Pattern.scanFrom (.tag depth) '<' 0 tag.text = _
    rw [head] at whole ⊢
    rw [Pattern.scanFrom_cons, if_pos rfl]
    simp only [Pattern.after?, whole, List.length_nil, Nat.sub_zero, Nat.zero_add]
  exact findWith_of_search rfl searched

/-- Matching the opening mark of a tag goes on behind it, in front of anything but a slash. -/
theorem run_mark {inner : Text} (noSlash : ∀ c ∈ inner.head?, '/' ≠ c) {next : Continuation}
    {stop : Nat}
    (goesOn : ∀ before, ∃ after,
      next ⟨before, inner, tag.mark.length, none⟩ = some after ∧ after.pos = stop) :
    ∃ after, textStart.run false ⟨none, tag.mark ++ inner, 0, none⟩ (fun start =>
      (Regex.word "<").run false start fun middle =>
        (Regex.optional (Regex.word "/")).run false middle next) = some after ∧
      after.pos = stop := by
  unfold TagDerivation.mark at goesOn ⊢
  cases closing : tag.closing with
  | true =>
    rw [closing] at goesOn
    obtain ⟨after, behind, place⟩ := goesOn (some '/')
    simp only [if_true, List.length_cons, List.length_nil, Nat.zero_add] at behind
    exact ⟨after, by simp [run, Regex.word, literal, Regex.optional, CharSet.has, behind], place⟩
  | false =>
    rw [closing] at goesOn
    obtain ⟨after, behind, place⟩ := goesOn (some '<')
    simp only [Bool.false_eq_true, if_false, List.length_cons, List.length_nil, Nat.zero_add]
      at behind
    refine ⟨after, ?_, place⟩
    cases inner with
    | nil => simp [run, Regex.word, literal, Regex.optional, CharSet.has, behind]
    | cons c rest =>
      have notSlash : '/' ≠ c := noSlash c rfl
      simp [run, Regex.word, literal, Regex.optional, notSlash, CharSet.has, behind]

/-- A character of a class without blanks and without the marks behind a name is neither blank nor
one of these marks. -/
theorem ink_of_member {isMember : Char → Bool}
    (noBlank : ∀ c, CharClass.isBlank c → isMember c = false) (noEnd : isMember '>' = false)
    (noSlash : isMember '/' = false) {c : Char} (member : isMember c = true) :
    (CharSet.inkBut ">/").has false c = true := by
  have notBlank : CharClass.isBlank c = false := by
    cases blank : CharClass.isBlank c with
    | false => rfl
    | true =>
      rw [noBlank c blank] at member
      cases member
  have notEnd : '>' ≠ c := (ne_of_member member noEnd).symm
  have notSlash : '/' ≠ c := (ne_of_member member noSlash).symm
  simp [CharSet.inkBut, CharSet.has, notBlank, notEnd, notSlash]

/-- What can follow a name is a blank or one of these marks. -/
theorem ink_stops {follow : Text} (ends : EndsPart follow) :
    ∀ c ∈ follow.head?, (CharSet.inkBut ">/").has false c = false := by
  intro c first
  rcases ends c first with blank | rfl | rfl
  · simp [CharSet.inkBut, CharSet.has, blank]
  · decide
  · decide

/-- A rule with a regular expression finds a match at the start of a text, if there is one. -/
theorem findWith_start {rule : Rule} {shape : Regex} {anyCase : Bool} {written text : Text}
    {stop : Nat} (pattern : rule.pattern = .regex shape anyCase written)
    (plain : rule.lookbehind = false)
    (matched : ∃ after, shape.matchAt anyCase ⟨none, text, 0, none⟩ = some after ∧
      after.pos = stop) :
    findWith rule text = .ok (some (0, stop)) := by
  obtain ⟨after, matched, rfl⟩ := matched
  have found : shape.searchFrom anyCase none 0 text = some (0, after) := by
    unfold searchFrom
    rw [matched]
  have searched : rule.pattern.search text = .ok (some (Pattern.foundAt shape 0 after)) := by
    rw [pattern]
    show Except.ok ((shape.searchFrom anyCase none 0 text).map _) = _
    rw [found]
    rfl
  exact findWith_of_search plain searched

/-- A name character is no slash. -/
theorem slash_ne {c : Char} (isInner : Tag.isNameChar c = true ∨ c = '>') : '/' ≠ c := by
  rintro rfl
  rcases isInner with name | ends
  · exact absurd name (by decide)
  · exact absurd ends (by decide)

/-- The rule for the opening mark of a tag finds the mark. -/
theorem mark_found :
    findWith { pattern := Grammar.Markup.openingMark } (tag.mark ++ tag.name) =
      .ok (some (0, tag.mark.length)) := by
  have noSlash : ∀ c ∈ tag.name.head?, '/' ≠ c := fun c first =>
    slash_ne (.inl (tag.name_members c (List.mem_of_mem_head? first)))
  exact findWith_start rfl rfl (run_mark tag noSlash fun before => ⟨_, rfl, rfl⟩)

/-- The rule for the name of a tag finds the mark and the name. -/
theorem name_found :
    findWith nameRule tag.text = .ok (some (0, tag.mark.length + tag.name.length)) := by
  have noSlash : ∀ c ∈ (tag.name ++ tag.behindName).head?, '/' ≠ c := by
    obtain ⟨c, rest, head, isInner⟩ := tag.head_behindMark
    rw [head]
    rintro _ ⟨⟩
    exact slash_ne isInner
  have taken (before : Option Char) : ∃ last, repeatMost ((one (.inkBut ">/")).run false)
      (tag.name ++ tag.behindName)
      ⟨before, tag.name ++ tag.behindName, tag.mark.length, none⟩ some =
      some ⟨last, tag.behindName, tag.mark.length + tag.name.length, none⟩ :=
    repeatMost_one
      (fun c member =>
        ink_of_member nameChar_of_blank (by decide) (by decide) (tag.name_members c member))
      (ink_stops tag.behindName_ends) rfl (by simp)
  rw [tag.text_split]
  refine findWith_start rfl rfl (run_mark tag noSlash fun before => ?_)
  obtain ⟨last, named⟩ := taken before
  exact ⟨_, named, rfl⟩

/-- A rule for what starts at the start of the text with a character of a set finds nothing where
another character stands. -/
theorem findWith_anchored {rule : Rule} {set : CharSet} {tail : Regex} {anyCase : Bool}
    {written text : Text}
    (pattern : rule.pattern = .regex (.seq .textStart (.seq (.one set) tail)) anyCase written)
    (other : ∀ c ∈ text.head?, set.has anyCase c = false) : findWith rule text = .ok none := by
  have first : (Regex.one set).run anyCase ⟨none, text, 0, none⟩
      (fun middle => tail.run anyCase middle some) = none := run_one_none other _
  have missed : (Regex.seq .textStart (.seq (.one set) tail)).matchAt anyCase
      ⟨none, text, 0, none⟩ = none := first
  have nothing : (Regex.seq .textStart (.seq (.one set) tail)).searchFrom anyCase none 0 text =
      none := by
    unfold searchFrom
    rw [missed]
    cases text with
    | nil => rfl
    | cons c rest => exact searchFrom_anchored c 1 rest
  have searched : rule.pattern.search text = .ok none := by
    rw [pattern]
    show Except.ok ((Regex.searchFrom anyCase _ none 0 text).map _) = _
    rw [nothing]
    rfl
  unfold findWith Rule.find
  rw [searched]
  rfl

/-- The rule for the name of a tag finds nothing behind the name. -/
theorem name_missed : findWith nameRule tag.behindName = .ok none := by
  have others : ∀ c ∈ tag.behindName.head?, (CharSet.among ['<']).has false c = false := by
    intro c first
    rcases tag.behindName_ends c first with blank | rfl | rfl
    · have notMark : '<' ≠ c := by
        rintro rfl
        exact absurd blank (by decide)
      simp [CharSet.has, notMark]
    · decide
    · decide
  exact findWith_anchored rfl others

/-! ## What becomes of the tag -/

/-- The token of the opening mark. -/
def markToken : Tree := .token .punctuation (.text tag.mark) [] (some tag.mark)

/-- The token of the opening mark and the name, with what the name was split into. -/
def nameToken (parts : List Tree) : Tree :=
  .token .tagName (.list (markToken tag :: parts)) [] (some (tag.mark ++ tag.name))

/-- The token of a tag, with what stands behind its name. -/
def tagToken (parts later : List Tree) : Tree :=
  .token .tag (.list (nameToken tag parts :: later)) [] (some tag.text)

/-- The opening mark has a character. -/
theorem mark_filled : 0 < tag.mark.length := by
  unfold TagDerivation.mark
  split <;> simp

/-- The mark and the name are split into the token of the mark and what covers the name. -/
theorem split_name {root : RuleSet} {fuel : Nat}
    (ofRoot : root.Only fun _ rule => rule.pattern.KeepsToText)
    (ofName : nameInside.Only fun _ rule => rule.pattern.KeepsToText) {items : List Tree}
    (split : splitWith root fuel nameInside (tag.mark ++ tag.name) = .ok items) :
    ∃ parts, items = markToken tag :: parts ∧ Tree.sources parts = tag.name ∧
      ∀ part ∈ parts, Loose part := by
  have loose := splitWith_loose (rules_of_nameInside root ▸ rfl) split
  have covers := splitWith_covers fuel ofRoot ofName split
  have filled : tag.mark ++ tag.name ≠ [] := by
    intro empty
    have length := congrArg List.length empty
    have some := mark_filled tag
    simp only [List.length_append, List.length_nil] at length
    omega
  obtain ⟨lower, -, run⟩ := splitWith_ok split
  rw [rules_of_nameInside, List.foldlM_cons, Outcome.bind_eq_ok] at run
  obtain ⟨front, applied, rest⟩ := run
  obtain ⟨token, later, made, -, rfl⟩ :=
    applyRule_start rfl filled (mark_found tag) (mark_filled tag) applied
  rw [List.take_left] at made
  have isMark : token = markToken tag := by
    cases made
    rfl
  rw [isMark] at rest
  obtain ⟨parts, -, rfl⟩ := foldlM_token rfl rest
  refine ⟨parts, rfl, ?_, (List.forall_mem_cons.mp loose).2⟩
  exact List.append_cancel_left covers.sources

/-- A tag is split into the token of its mark and name and what the further rules make of the text
behind the name. -/
theorem split_tag {root : RuleSet} {fuel : Nat}
    (ofRoot : root.Only fun _ rule => rule.pattern.KeepsToText)
    (ofTag : (tagInside depth).Only fun _ rule => rule.pattern.KeepsToText) {items : List Tree}
    (split : splitWith root fuel (tagInside depth) tag.text = .ok items) :
    ∃ lower parts later, items = nameToken tag parts :: later ∧
      Tree.sources parts = tag.name ∧ (∀ part ∈ parts, Loose part) ∧
      (behindName depth).foldlM (fun items (name, rule) =>
        applyRule rule (makeWith (splitWith root lower) root name rule) items)
        (raw tag.behindName) = .ok later := by
  have ofName : nameInside.Only fun _ rule => rule.pattern.KeepsToText := by
    have tried : ("tag-name", nameRule) ∈ RuleSet.chainRules root (tagInside depth) :=
      List.mem_cons_self
    exact (RuleSet.only_of_chainRules tried ofRoot ofTag).2 nameInside rfl
  obtain ⟨lower, -, run⟩ := splitWith_ok split
  rw [rules_of_tagInside, List.foldlM_cons, Outcome.bind_eq_ok] at run
  obtain ⟨front, applied, rest⟩ := run
  have filled : tag.text ≠ [] := List.cons_ne_nil _ _
  have some := mark_filled tag
  obtain ⟨token, behind, made, steps, rfl⟩ :=
    applyRule_start rfl filled (name_found tag) (by omega) applied
  have halves : tag.text = (tag.mark ++ tag.name) ++ tag.behindName := by
    rw [tag.text_split, List.append_assoc]
  rw [halves, ← List.length_append, List.take_left] at made
  rw [halves, ← List.length_append, List.drop_left] at steps
  obtain ⟨inner, nested, rfl⟩ := nested_of_makeWith rfl rfl made
  obtain ⟨parts, rfl, sources, loose⟩ := split_name tag ofRoot ofName nested
  obtain ⟨later, run, rfl⟩ := foldlM_token rfl rest
  rw [steps.of_missed (name_missed tag)] at run
  exact ⟨lower, parts, later, rfl, sources, loose, run⟩

/-- The patterns of the rules in a tag keep to the text. -/
theorem only_tagInside (keywords : List Text) (depth : Nat) :
    (tagInside depth).Only fun _ rule => rule.pattern.KeepsToText := by
  have ofRoot := only_keeps (grammar_usable keywords depth)
  have tried : ("tag", tagRule depth) ∈
      RuleSet.chainRules (grammar keywords depth) (grammar keywords depth) := by
    rw [rules_of_grammar]
    exact List.mem_append_right _ List.mem_cons_self
  exact (RuleSet.only_of_chainRules tried ofRoot ofRoot).2 (tagInside depth) rfl

/-- The rules that are tried before the rule for tags leave the start of a tag raw. -/
theorem front_raw {root : RuleSet} {fuel : Nat} {items : List Tree}
    (ofRoot : root.Only fun _ rule => rule.pattern.KeepsToText)
    (tried : ∀ entry ∈ listed beforeTag, entry ∈ RuleSet.chainRules root root)
    (run : (listed beforeTag).foldlM
      (fun items (name, rule) =>
        applyRule rule (makeWith (splitWith root fuel) root name rule) items)
      (raw tag.text) = .ok items) :
    Covers tag.text items ∧ ∃ front later, items = .text ('<' :: front) :: later := by
  refine Outcome.foldlM_keeps (fun items =>
    Covers tag.text items ∧ ∃ front later, items = .text ('<' :: front) :: later) ?_ run
    ⟨covers_raw tag.text, _, [], rfl⟩
  rintro before after ⟨name, rule⟩ member ⟨covers, front, later, rfl⟩ applied
  have greedy : rule.greedy = true := by
    have all : (listed beforeTag).all (fun entry => entry.2.greedy) = true := rfl
    exact List.all_eq_true.mp all _ member
  refine ⟨tried_covers ofRoot ofRoot (tried _ member) applied covers, ?_⟩
  refine applyRule_front greedy ?_ applied
  rw [covers.sources]
  exact beforeTag_misses tag _ member

/-- A text that is a tag is split into the token of the tag, and what stands in the token behind the
name is what the rules there make of the text behind the name.

Proof: splitting has a result. The rules before the rule for tags leave the start of the text raw,
so that rule makes one token of all of it, and the rules behind it find nothing but that token. The
parts of the token are those of the tag. -/
theorem tokenize_tag_run (keywords : List Text) :
    ∃ lower parts later,
      (grammar keywords depth).tokenize tag.text = .ok [tagToken tag parts later] ∧
      Tree.sources parts = tag.name ∧
      (behindName depth).foldlM (fun items (name, rule) =>
        applyRule rule (makeWith (splitWith (grammar keywords depth) lower) (grammar keywords depth)
          name rule) items) (raw tag.behindName) = .ok later := by
  have ofRoot := only_keeps (grammar_usable keywords depth)
  obtain ⟨items, split⟩ := tokenize_total keywords depth tag.text
  obtain ⟨lower, -, run⟩ := splitWith_ok split
  rw [rules_of_grammar, List.foldlM_append, Outcome.bind_eq_ok] at run
  obtain ⟨before, front, run⟩ := run
  rw [List.foldlM_cons, Outcome.bind_eq_ok] at run
  obtain ⟨whole, applied, behind⟩ := run
  obtain ⟨covers, chars, others, rfl⟩ := front_raw tag ofRoot
    (fun entry member => rules_of_grammar keywords depth ▸ List.mem_append_left _ member) front
  obtain ⟨token, made, rfl⟩ := applyRule_whole rfl rfl covers (tag_found tag) applied
  obtain ⟨inner, nested, rfl⟩ := nested_of_makeWith rfl rfl made
  obtain ⟨lower, parts, later, rfl, sources, -, inside⟩ :=
    split_tag tag ofRoot (only_tagInside keywords depth) nested
  rw [foldlM_alone rfl behind] at split
  exact ⟨lower, parts, later, split, sources, inside⟩

/-- A text that is a tag is split into the token of the tag. -/
theorem tokenize_tag (keywords : List Text) :
    ∃ parts later, (grammar keywords depth).tokenize tag.text = .ok [tagToken tag parts later] ∧
      Tree.sources parts = tag.name := by
  obtain ⟨lower, parts, later, split, sources, -⟩ := tokenize_tag_run tag keywords
  exact ⟨parts, later, split, sources⟩

end TemplHighlight.Templ
