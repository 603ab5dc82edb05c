import TemplHighlight.Proofs.Split.Lossless

/-!
# The front of the items

What rules do to the first item of a list. A token in front stays there under every rule, and what
comes of the items behind it is independent of it. A raw item in front that is left alone at its
first character stays raw in front. A greedy rule that finds the whole text makes one token of it.
-/

namespace TemplHighlight.Split

/-- A token in front stays there, and the rule works on the items behind it. -/
theorem applyRule_token {rule : Rule} {make : Maker} {token : Tree} {items result : List Tree}
    (isToken : token.isToken = true) (applied : applyRule rule make (token :: items) = .ok result) :
    ∃ later, applyRule rule make items = .ok later ∧ result = token :: later := by
  unfold applyRule at applied ⊢
  split at applied
  · rename_i greedy
    rw [splitGreedy, if_pos isToken, Outcome.bind_eq_ok] at applied
    obtain ⟨later, split, same⟩ := applied
    cases same
    exact ⟨later, by rw [if_pos greedy, split], rfl⟩
  · rename_i plain
    rw [splitEach, if_pos isToken] at applied
    simp only [Outcome.bind_eq_ok] at applied
    obtain ⟨front, taken, later, split, same⟩ := applied
    cases taken
    cases same
    exact ⟨later, by rw [if_neg plain, split], rfl⟩

/-- A token in front stays there whatever rules follow, and these work on the items behind it. -/
theorem foldlM_token {rules : List (String × Rule)} {make : String → Rule → Maker} {token : Tree}
    {items result : List Tree} (isToken : token.isToken = true)
    (run : rules.foldlM (fun items (name, rule) => applyRule rule (make name rule) items)
      (token :: items) = .ok result) :
    ∃ later, rules.foldlM (fun items (name, rule) => applyRule rule (make name rule) items) items =
      .ok later ∧ result = token :: later := by
  induction rules generalizing items with
  | nil =>
    cases run
    exact ⟨items, rfl, rfl⟩
  | cons entry rules inductionHypothesis =>
    rw [List.foldlM_cons, Outcome.bind_eq_ok] at run
    obtain ⟨middle, applied, rest⟩ := run
    obtain ⟨changed, inside, rfl⟩ := applyRule_token isToken applied
    obtain ⟨later, behind, same⟩ := inductionHypothesis rest
    refine ⟨later, ?_, same⟩
    rw [List.foldlM_cons, Outcome.bind_eq_ok]
    exact ⟨changed, inside, behind⟩

/-- No rule does anything to no items. -/
theorem applyRule_nil (rule : Rule) (make : Maker) : applyRule rule make [] = .ok [] := by
  unfold applyRule
  split
  · rw [splitGreedy]
  · rfl

/-- A token that stands alone stays alone whatever rules follow. -/
theorem foldlM_alone {rules : List (String × Rule)} {make : String → Rule → Maker} {token : Tree}
    {result : List Tree} (isToken : token.isToken = true)
    (run : rules.foldlM (fun items (name, rule) => applyRule rule (make name rule) items) [token] =
      .ok result) :
    result = [token] := by
  obtain ⟨later, behind, rfl⟩ := foldlM_token isToken run
  have none : later = [] := by
    refine Outcome.foldlM_keeps (fun items => items = []) ?_ behind rfl
    rintro before after ⟨name, rule⟩ - rfl applied
    have nothing : applyRule rule (make name rule) [] = .ok after := applied
    rw [applyRule_nil] at nothing
    cases nothing
    rfl
  rw [none]

/-- The items passed before a place begin with the first item, if there are any. -/
theorem passed_cons {start : Nat} {item : Tree} {items passed behind : List Tree}
    (spanned : spanBefore start (item :: items) = (passed, behind)) (some : passed ≠ []) :
    ∃ more, passed = item :: more := by
  have whole := spanBefore_append start (item :: items)
  rw [spanned] at whole
  cases passed with
  | nil => exact absurd rfl some
  | cons first more =>
    injection whole with same
    exact ⟨more, by rw [same]⟩

/-- A greedy rule that finds nothing at the first character of the text leaves that character raw in
front. -/
theorem applyRule_front {rule : Rule} {make : Maker} {c : Char} {front : Text}
    {items result : List Tree} (greedy : rule.greedy = true)
    (misses : ∀ stop, findWith rule (Tree.sources (.text (c :: front) :: items)) ≠
      .ok (some (0, stop)))
    (applied : applyRule rule make (.text (c :: front) :: items) = .ok result) :
    ∃ front' later, result = .text (c :: front') :: later := by
  rw [applyRule, if_pos greedy] at applied
  cases steps_of_splitGreedy applied with
  | token isToken => cases isToken
  | none isRaw missed => exact ⟨front, items, rfl⟩
  | pass isRaw found empty behind => exact ⟨front, _, rfl⟩
  | @cut _ _ _ start stop token isRaw found ordered here made behind =>
    cases start with
    | zero => exact absurd found (misses stop)
    | succ start => exact ⟨_, _, rfl⟩
  | later isRaw found ordered spanned some rest =>
    obtain ⟨more, rfl⟩ := passed_cons spanned some
    exact ⟨front, _, rfl⟩

/-- A greedy rule that finds the whole text makes one token of it, if the text starts raw. -/
theorem applyRule_whole {rule : Rule} {make : Maker} {text : Text} {item : Tree}
    {items result : List Tree} (greedy : rule.greedy = true) (raw : item.isToken = false)
    (covers : Covers text (item :: items))
    (found : findWith rule text = .ok (some (0, text.length)))
    (applied : applyRule rule make (item :: items) = .ok result) :
    ∃ token, make text = .ok token ∧ result = [token] := by
  have filled : 0 < text.length := by
    have first := (covers.lossless item List.mem_cons_self).source_filled
    have length := congrArg List.length covers.sources
    have itemLength := List.length_pos_iff.mpr first
    rw [Tree.sources, List.length_append] at length
    omega
  rw [applyRule, if_pos greedy] at applied
  cases steps_of_splitGreedy applied with
  | token isToken =>
    rw [raw] at isToken
    cases isToken
  | none isRaw missed =>
    rw [covers.sources, found] at missed
    cases missed
  | pass isRaw other empty behind =>
    rw [covers.sources, found] at other
    cases other
    omega
  | cut isRaw other ordered here made behind =>
    rw [covers.sources] at other made ⊢
    rw [found] at other
    cases other
    have rest := dropSource_covers text.length covers
    rw [List.drop_length] at rest
    have none : dropSource text.length (item :: items) = [] := by
      cases left : dropSource text.length (item :: items) with
      | nil => rfl
      | cons other more =>
        rw [left] at rest
        obtain ⟨lossless, split, -⟩ := rest.uncons
        exact absurd (List.append_eq_nil_iff.mp split.symm).1 lossless.source_filled
    rw [none] at behind
    cases behind
    rw [List.take_length, List.drop_zero] at made
    exact ⟨_, made, rfl⟩
  | later isRaw other ordered spanned some rest =>
    rw [covers.sources, found] at other
    cases other
    have first := List.length_pos_iff.mpr (covers.lossless item List.mem_cons_self).source_filled
    rw [spanBefore, if_neg (by omega)] at spanned
    cases spanned
    exact absurd rfl some

/-- A plain rule that finds something at the start of a raw text makes the first token of it, and
splits what is left. -/
theorem applyRule_start {rule : Rule} {make : Maker} {text : Text} {stop : Nat}
    {result : List Tree} (plain : rule.greedy = false) (filled : text ≠ [])
    (found : findWith rule text = .ok (some (0, stop))) (ordered : 0 < stop)
    (applied : applyRule rule make (raw text) = .ok result) :
    ∃ token later, make (text.take stop) = .ok token ∧
      TextSteps (findWith rule) make (text.drop stop) later ∧ result = token :: later :=
  (steps_of_applyRule_raw plain applied).of_found filled found ordered

/-- A result of splitting comes from the rules that are tried, one after the other. -/
theorem splitWith_ok {root set : RuleSet} {fuel : Nat} {text : Text} {items : List Tree}
    (split : splitWith root fuel set text = .ok items) :
    ∃ lower, fuel = lower + 1 ∧
      (RuleSet.chainRules root set).foldlM
        (fun items (name, rule) =>
          applyRule rule (makeWith (splitWith root lower) root name rule) items)
        (raw text) = .ok items := by
  cases fuel with
  | zero => cases split
  | succ lower => exact ⟨lower, rfl, split⟩

end TemplHighlight.Split
