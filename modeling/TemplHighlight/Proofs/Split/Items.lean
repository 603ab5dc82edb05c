import TemplHighlight.Proofs.Pattern.Passed
import TemplHighlight.Proofs.Split.Front

/-!
# What all items have in common

A property of all items is kept by a plain rule if the tokens that it makes have it and the texts
that it leaves raw do. An example are the items that a rule set without nested sets splits a text
into: they are raw texts, and tokens that have their own text as content.
-/

namespace TemplHighlight

namespace Split

variable {find : Finder} {make : Maker} {clean : Text → Prop} {good : Tree → Prop} {text : Text}

/-- The raw items of a text have a property that the text has as a raw item. -/
theorem raw_forall {text : Text} (isGood : good (.text text)) : ∀ item ∈ raw text, good item := by
  cases text with
  | nil => nofun
  | cons c later => exact List.forall_mem_singleton.mpr isGood

/-- Splitting a raw text makes items with a property, if every match can be cut out of a text so that
the rest is as clean as the text was. -/
theorem TextSteps.forall_items
    (missed : ∀ text, clean text → Misses find text → good (.text text))
    (cut : ∀ text start stop, clean text → find text = .ok (some (start, stop)) → start < stop →
      good (.text (text.take start)) ∧
        (∀ token, make ((text.take stop).drop start) = .ok token → good token) ∧
        clean (text.drop stop))
    {text : Text} {result : List Tree} (isClean : clean text)
    (steps : TextSteps find make text result) : ∀ item ∈ result, good item := by
  induction steps with
  | empty => nofun
  | whole filled nothing =>
    intro item member
    rw [List.mem_singleton.mp member]
    exact missed _ isClean nothing
  | @cut text start stop token later found ordered made behind inductionHypothesis =>
    obtain ⟨front, isGood, rest⟩ := cut text start stop isClean found ordered
    exact List.forall_mem_append.mpr ⟨raw_forall front,
      List.forall_mem_cons.mpr ⟨isGood token made, inductionHypothesis rest⟩⟩

/-- A plain rule makes items with a property, if its tokens have it and so do the tokens that it
leaves in place. -/
theorem EachSteps.forall_items
    (missed : ∀ text, clean text → Misses find text → good (.text text))
    (cut : ∀ text start stop, clean text → find text = .ok (some (start, stop)) → start < stop →
      good (.text (text.take start)) ∧
        (∀ token, make ((text.take stop).drop start) = .ok token → good token) ∧
        clean (text.drop stop))
    {items result : List Tree}
    (before : ∀ item ∈ items, (item.isToken = true → good item) ∧
      (¬ item.isToken = true → clean item.source))
    (steps : EachSteps find make items result) : ∀ item ∈ result, good item := by
  induction steps with
  | done => nofun
  | token isToken behind inductionHypothesis =>
    obtain ⟨first, rest⟩ := List.forall_mem_cons.mp before
    exact List.forall_mem_cons.mpr ⟨first.1 isToken, inductionHypothesis rest⟩
  | raw raw split behind inductionHypothesis =>
    obtain ⟨first, rest⟩ := List.forall_mem_cons.mp before
    exact List.forall_mem_append.mpr
      ⟨split.forall_items missed cut (first.2 raw), inductionHypothesis rest⟩

/-! ## Rules without sets inside -/

/-- An item without items of its own that is neither a tag nor plain text. -/
inductive Loose : Tree → Prop where
  | raw (text : Text) : Loose (.text text)
  | token {kind : TokenKind} (text : Text) (aliases : List String) (notTag : kind ≠ .tag)
      (notPlain : kind ≠ .plainText) : Loose (.token kind (.text text) aliases (some text))

/-- Whether a rule is plain and has no set inside, and its tokens are neither tags nor plain text. -/
def makesLoose (entry : String × Rule) : Bool :=
  !entry.2.greedy && !entry.2.lookbehind &&
    (match entry.2.inside with
      | .none => true
      | .root | .to _ => false) &&
    match entry.2.kindFor? entry.1 with
      | some kind => kind != .tag && kind != .plainText
      | none => false

/-- The token of such a rule has its text as content. -/
theorem loose_of_makeWith {splitInside : RuleSet → Text → Except SplitError (List Tree)}
    {root : RuleSet} {name : String} {rule : Rule} (loose : makesLoose (name, rule) = true)
    {text : Text} {token : Tree} (made : makeWith splitInside root name rule text = .ok token) :
    ∃ kind, kind ≠ .tag ∧ kind ≠ .plainText ∧
      token = .token kind (.text text) rule.aliases (some text) := by
  simp only [makesLoose, Bool.and_eq_true] at loose
  obtain ⟨⟨-, leaf⟩, kinded⟩ := loose
  have linked : rule.inside = .none := by
    split at leaf
    · assumption
    · cases leaf
    · cases leaf
  split at kinded
  · rename_i kind named
    simp only [Bool.and_eq_true, bne_iff_ne] at kinded
    exact ⟨kind, kinded.1, kinded.2, leaf_of_makeWith linked named made⟩
  · cases kinded

/-- Loose items stay loose behind such a rule. -/
theorem applyRule_loose {splitInside : RuleSet → Text → Except SplitError (List Tree)}
    {root : RuleSet} {name : String} {rule : Rule} (loose : makesLoose (name, rule) = true)
    {items result : List Tree} (before : ∀ item ∈ items, Loose item)
    (applied : applyRule rule (makeWith splitInside root name rule) items = .ok result) :
    ∀ item ∈ result, Loose item := by
  have plain : rule.greedy = false := by
    simp only [makesLoose, Bool.and_eq_true, Bool.not_eq_true'] at loose
    exact loose.1.1.1
  rw [applyRule, plain] at applied
  refine (steps_of_splitEach applied).forall_items (fun text (_ : True) _ => .raw text) ?_
    fun item member => ⟨fun _ => before item member, fun _ => trivial⟩
  intro text start stop _ _ _
  refine ⟨.raw _, fun token made => ?_, trivial⟩
  obtain ⟨kind, notTag, notPlain, rfl⟩ := loose_of_makeWith loose made
  exact .token _ _ notTag notPlain

/-- A text that is split with such rules only becomes loose items. -/
theorem splitWith_loose {root set : RuleSet} {fuel : Nat} {text : Text} {items : List Tree}
    (loose : (RuleSet.chainRules root set).all makesLoose = true)
    (split : splitWith root fuel set text = .ok items) : ∀ item ∈ items, Loose item := by
  obtain ⟨lower, -, run⟩ := splitWith_ok split
  refine Outcome.foldlM_keeps (fun items => ∀ item ∈ items, Loose item) ?_ run
    (raw_forall (.raw text))
  rintro before after ⟨name, rule⟩ listed isLoose applied
  exact applyRule_loose (List.all_eq_true.mp loose _ listed) isLoose applied

/-! ## Rules for single characters -/

section

variable {rule : Rule} {set : CharSet} {anyCase : Bool} {written : Text}
  (pattern : rule.pattern = .regex (.one set) anyCase written) (plain : rule.lookbehind = false)
include pattern plain

/-- A rule for single characters finds the first one. -/
theorem one_found {start stop : Nat} (found : findWith rule text = .ok (some (start, stop))) :
    ∃ front c rest, text = front ++ c :: rest ∧ (∀ d ∈ front, set.has anyCase d = false) ∧
      set.has anyCase c = true ∧ start = front.length ∧ stop = front.length + 1 := by
  obtain ⟨result, searched, rfl, -, same⟩ := search_of_findWith found
  rw [pattern] at searched
  rcases Pattern.search_one set anyCase written text with
    ⟨nothing, -⟩ | ⟨front, c, rest, first, split, others, isMember, firstFound, starts, stops⟩
  · rw [nothing] at searched
    cases searched
  · rw [firstFound] at searched
    cases searched
    exact ⟨front, c, rest, split, others, isMember, (same plain).symm.trans starts, stops⟩

/-- Where it finds nothing, there is none. -/
theorem one_missed (missed : Misses (findWith rule) text) :
    ∀ c ∈ text, set.has anyCase c = false := by
  rcases missed with nothing | ⟨start, stop, found, unordered⟩
  · have searched := search_of_missed plain nothing
    rw [pattern] at searched
    rcases Pattern.search_one set anyCase written text with
      ⟨-, others⟩ | ⟨front, c, rest, first, -, -, -, firstFound, -⟩
    · exact others
    · rw [firstFound] at searched
      cases searched
  · obtain ⟨front, c, rest, -, -, -, starts, stops⟩ := one_found pattern plain found
    omega

end

end Split

end TemplHighlight
