import TemplHighlight.Proofs.Split.Origins
import TemplHighlight.Proofs.Split.Parts

/-!
# Rules that find nothing

A rule that finds nothing in any piece of a text leaves items that cover the text as they are. So
a grammar with such rules among others splits the text as it would without them. What the other
rules make must not depend on the grammar: that is so where they have no set inside.
-/

namespace TemplHighlight.Split

/-- A rule finds nothing in any piece of a text. -/
def Idle (rule : Rule) (text : Text) : Prop :=
  ∀ piece, piece <:+: text → findWith rule piece = .ok none

/-- A raw item without loss is the raw text of its source. -/
theorem raw_of_lossless {item : Tree} (lossless : item.Lossless) (isRaw : ¬ item.isToken = true) :
    raw item.source = [item] := by
  cases lossless with
  | @raw chars filled =>
    cases chars with
    | nil => exact absurd rfl filled
    | cons c rest => rfl
  | leaf => exact absurd rfl isRaw
  | nested => exact absurd rfl isRaw

/-- A plain rule that finds nothing changes nothing. -/
theorem EachSteps.same_of_missed {find : Finder} {make : Maker} {items result : List Tree}
    (lossless : ∀ item ∈ items, item.Lossless)
    (missed : ∀ item ∈ items, find item.source = .ok none)
    (steps : EachSteps find make items result) : result = items := by
  induction steps with
  | done => rfl
  | token isToken behind inductionHypothesis =>
    rw [inductionHypothesis (List.forall_mem_cons.mp lossless).2 (List.forall_mem_cons.mp missed).2]
  | raw isRaw split behind inductionHypothesis =>
    obtain ⟨losslessFirst, losslessLater⟩ := List.forall_mem_cons.mp lossless
    obtain ⟨missedFirst, missedLater⟩ := List.forall_mem_cons.mp missed
    rw [split.of_missed missedFirst, raw_of_lossless losslessFirst isRaw,
      inductionHypothesis losslessLater missedLater]
    rfl

/-- A rule is idle in a text without any of the characters of which it needs one. -/
theorem idle_of_needs {rule : Rule} {chars text : Text} (searches : rule.pattern.searches = true)
    (needed : rule.pattern.needs chars = true) (none : ∀ c ∈ text, c ∉ chars) : Idle rule text := by
  intro piece inside
  have nothing : rule.pattern.search piece = .ok Option.none := by
    apply Pattern.search_of_needs searches needed
    exact fun c member => none c (inside.subset member)
  unfold findWith Rule.find
  rw [nothing]
  rfl

/-- An idle rule changes nothing. -/
theorem applyRule_idle {rule : Rule} {make : Maker} {text : Text} {items result : List Tree}
    (idle : Idle rule text) (covers : Covers text items)
    (applied : applyRule rule make items = .ok result) : result = items := by
  unfold applyRule at applied
  split at applied
  · apply (steps_of_splitGreedy applied).same
    intro item later ends isRaw start stop found
    obtain ⟨passed, rfl⟩ := ends
    have piece : Tree.sources (item :: later) <:+: text := by
      rw [← covers.sources, Tree.sources_append]
      exact (List.suffix_append _ _).isInfix
    rw [idle _ piece] at found
    cases found
  · apply (steps_of_splitEach applied).same_of_missed covers.lossless
    intro item listed
    exact idle _ (covers.sources ▸ piece_of_mem listed)

/-- A rule without a set inside makes the same tokens whatever the grammar is. -/
theorem makeWith_leaf {rule : Rule} (linked : rule.inside = .none)
    (splitInside other : RuleSet → Text → Except SplitError (List Tree)) (root root' : RuleSet)
    (name : String) : makeWith splitInside root name rule = makeWith other root' name rule := by
  funext text
  unfold makeWith
  rw [linked]

/-- A run over idle rules changes nothing. -/
theorem run_idle {idle : List (String × Rule)} {make : String → Rule → Maker} {text : Text}
    {items result : List Tree} (idles : ∀ entry ∈ idle, Idle entry.2 text)
    (covers : Covers text items)
    (run : idle.foldlM (fun items (name, rule) => applyRule rule (make name rule) items) items =
      .ok result) : result = items := by
  refine Outcome.foldlM_keeps (fun after => after = items) ?_ run rfl
  rintro before after ⟨name, rule⟩ listed rfl applied
  exact applyRule_idle (idles _ listed) covers applied

/-- Rules that leave out the idle ones of a grammar, and have no sets inside, split the text in the
same way. -/
theorem splitWith_without_idle {root set root' set' : RuleSet} {fuel fuel' : Nat} {text : Text}
    {items : List Tree} {front idle behind : List (String × Rule)}
    (ofRoot : root.Only fun _ rule => rule.pattern.KeepsToText)
    (ofSet : set.Only fun _ rule => rule.pattern.KeepsToText)
    (tried : RuleSet.chainRules root set = front ++ (idle ++ behind))
    (tried' : RuleSet.chainRules root' set' = front ++ behind)
    (leaves : ∀ entry ∈ front ++ behind, entry.2.inside = .none)
    (idles : ∀ entry ∈ idle, Idle entry.2 text)
    (split : splitWith root (fuel + 1) set text = .ok items) :
    splitWith root' (fuel' + 1) set' text = .ok items := by
  rw [splitWith, tried, List.foldlM_append, Outcome.bind_eq_ok] at split
  obtain ⟨middle, frontRun, run⟩ := split
  rw [List.foldlM_append, Outcome.bind_eq_ok] at run
  obtain ⟨middle', idleRun, behindRun⟩ := run
  have coversMiddle : Covers text middle := by
    refine Outcome.foldlM_keeps (Covers text) ?_ frontRun (covers_raw text)
    rintro before after ⟨name, rule⟩ listed covers applied
    exact tried_covers ofRoot ofSet (tried ▸ List.mem_append_left _ listed) applied covers
  obtain rfl : middle' = middle := run_idle idles coversMiddle idleRun
  have others : (front ++ behind).foldlM
      (fun items (name, rule) =>
        applyRule rule (makeWith (splitWith root fuel) root name rule) items) (raw text) =
      .ok items := by
    rw [List.foldlM_append, Outcome.bind_eq_ok]
    exact ⟨middle', frontRun, behindRun⟩
  rw [splitWith, tried']
  refine Outcome.foldlM_replay (fun _ => True) ?_ others trivial
  rintro before after ⟨name, rule⟩ listed - applied
  have linked : rule.inside = .none := leaves _ listed
  have sameMaker := makeWith_leaf linked (splitWith root fuel) (splitWith root' fuel') root root' name
  simp only [sameMaker] at applied
  exact ⟨applied, trivial⟩

/-- Rules without sets inside make items without lists of their own. -/
theorem splitWith_flat {root set : RuleSet} {fuel : Nat} {text : Text} {items : List Tree}
    (leaves : ∀ entry ∈ RuleSet.chainRules root set, entry.2.inside = .none)
    (split : splitWith root (fuel + 1) set text = .ok items) :
    ∀ item ∈ items, item.isNested = false := by
  refine Outcome.foldlM_keeps (fun items => ∀ item ∈ items, item.isNested = false) ?_ split
    (raw_forall rfl)
  rintro before after ⟨name, rule⟩ listed flat applied
  have linked : rule.inside = .none := leaves _ listed
  apply applyRule_forall (fun _ => rfl) ?_ applied flat
  intro part token _ made
  cases steps_of_makeWith made with
  | leaf => rfl
  | root toRoot =>
    rw [linked] at toRoot
    cases toRoot
  | inside toSet =>
    rw [linked] at toSet
    cases toSet

end TemplHighlight.Split
