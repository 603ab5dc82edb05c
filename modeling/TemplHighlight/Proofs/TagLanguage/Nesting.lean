import TemplHighlight.Proofs.TagLanguage.Exact

/-!
# How deep brace groups nest

Two descriptions of brace groups that do not mention the scan for one. A group is made of characters
and of groups, and `Nesting.levels` says how many of these stand inside one another. And from left
to right, a group is what a counter reads that goes up at every opening brace and down at every
closing one, until it is back at zero for the first time. The scanner of groups stops exactly where
either of them ends; the greatest depth bounds the levels of the one and the count of the other.
-/

namespace TemplHighlight.TagLanguage

/-! ## Groups made of groups -/

/-- What stands between the braces of a group: characters other than braces, and groups. -/
inductive Nesting where
  | done
  | char (c : Char) (opensNone : c ≠ '{') (closesNone : c ≠ '}') (behind : Nesting)
  | group (inner behind : Nesting)

namespace Nesting

/-- The text between the braces. -/
def text : Nesting → Text
  | done => []
  | char c _ _ behind => c :: behind.text
  | group inner behind => '{' :: (inner.text ++ '}' :: behind.text)

/-- How many groups stand inside one another, at most. -/
def levels : Nesting → Nat
  | done => 0
  | char _ _ _ behind => behind.levels
  | group inner behind => max (inner.levels + 1) behind.levels

end Nesting

/-- The language of brace groups with at most `depth` levels of groups below the outer one. -/
def IsGroup (depth : Nat) (text : Text) : Prop :=
  ∃ inner : Nesting, inner.levels ≤ depth ∧ text = '{' :: (inner.text ++ ['}'])

/-- A text that may stand between braces is one that is made of characters and groups. -/
theorem braced_iff_nesting {levels : Nat} {text : Text} :
    Braced levels text ↔ ∃ inner : Nesting, inner.levels ≤ levels ∧ inner.text = text := by
  constructor
  · intro braced
    induction braced with
    | done => exact ⟨.done, Nat.zero_le _, rfl⟩
    | @char levels c later opensNone closesNone behind inductionHypothesis =>
      obtain ⟨inner, bounded, same⟩ := inductionHypothesis
      exact ⟨.char c opensNone closesNone inner, bounded, congrArg (c :: ·) same⟩
    | @group levels nested later braced behind nestedHypothesis behindHypothesis =>
      obtain ⟨inner, innerBounded, rfl⟩ := nestedHypothesis
      obtain ⟨others, othersBounded, rfl⟩ := behindHypothesis
      have bounded := Nat.max_le.mpr ⟨Nat.succ_le_succ innerBounded, othersBounded⟩
      exact ⟨.group inner others, bounded, rfl⟩
  · rintro ⟨inner, bounded, rfl⟩
    induction inner generalizing levels with
    | done => exact .done
    | char c opensNone closesNone behind inductionHypothesis =>
      exact .char opensNone closesNone (inductionHypothesis bounded)
    | group inner behind innerHypothesis behindHypothesis =>
      obtain ⟨innerBounded, behindBounded⟩ := Nat.max_le.mp bounded
      obtain ⟨below, rfl⟩ : ∃ below, levels = below + 1 := Nat.exists_eq_add_one.mpr (by omega)
      exact .group (innerHypothesis (Nat.le_of_succ_le_succ innerBounded))
        (behindHypothesis behindBounded)

/-- The scan for a group passes exactly the groups. -/
theorem after_group (depth : Nat) (text rest : Text) :
    Braces.after? depth text = some rest ↔ ∃ part, IsGroup depth part ∧ text = part ++ rest := by
  rw [group_exact]
  constructor
  · rintro ⟨inner, braced, rfl⟩
    obtain ⟨nesting, bounded, rfl⟩ := braced_iff_nesting.mp braced
    exact ⟨_, ⟨nesting, bounded, rfl⟩, by simp⟩
  · rintro ⟨_, ⟨nesting, bounded, rfl⟩, rfl⟩
    exact ⟨nesting.text, braced_iff_nesting.mpr ⟨nesting, bounded, rfl⟩, by simp⟩

/-! ## Groups that are counted -/

variable {depth level : Nat} {count : Int} {text rest : Text}

/-- What a character adds to the count of open groups. -/
def braceValue (c : Char) : Int := if c = '{' then 1 else if c = '}' then -1 else 0

/-- The count of open groups behind a text: up by one for every opening brace in it, and down by one
for every closing brace. -/
def openGroups : Text → Int
  | [] => 0
  | c :: text => braceValue c + openGroups text

/-- A text that starts with an opening brace and leaves the count of open groups at zero; before
that, the count is never zero, nor more than the outer group and `depth` others. -/
structure IsCounted (depth : Nat) (text : Text) : Prop where
  opens : text.head? = some '{'
  returns : openGroups text = 0
  before : ∀ front, front <+: text → front ≠ [] → front ≠ text →
    openGroups front ≠ 0 ∧ openGroups front ≤ depth + 1

/-- A count that has come to some value goes on through a text, and is zero behind it. Before that,
it is never zero, nor more than the outer group and `depth` others. -/
def ReturnsFrom (depth : Nat) (count : Int) (text : Text) : Prop :=
  count + openGroups text = 0 ∧ ∀ front, front <+: text → front ≠ text →
    count + openGroups front ≠ 0 ∧ count + openGroups front ≤ depth + 1

/-- An opening brace counts one up. -/
@[simp] theorem braceValue_open : braceValue '{' = 1 := rfl

/-- A closing brace counts one down. -/
@[simp] theorem braceValue_close : braceValue '}' = -1 := rfl

/-- Any other character leaves the count as it is. -/
theorem braceValue_plain {c : Char} (opensNone : c ≠ '{') (closesNone : c ≠ '}') :
    braceValue c = 0 := by
  rw [braceValue, if_neg opensNone, if_neg closesNone]

/-- The count of a text is that of its first character and of the others. -/
theorem openGroups_cons (c : Char) (text : Text) :
    openGroups (c :: text) = braceValue c + openGroups text := rfl

/-- Where no text is left to be counted, the count has to be zero already. -/
theorem returnsFrom_nil : ReturnsFrom depth count [] ↔ count = 0 := by
  constructor
  · rintro ⟨returns, -⟩
    simpa [openGroups] using returns
  · rintro rfl
    refine ⟨rfl, fun front isFront more => ?_⟩
    exact absurd (List.prefix_nil.mp isFront) more

/-- A text that is not empty is counted through from its first character on. -/
theorem returnsFrom_cons {c : Char} :
    ReturnsFrom depth count (c :: text) ↔
      (count ≠ 0 ∧ count ≤ depth + 1) ∧ ReturnsFrom depth (count + braceValue c) text := by
  simp only [ReturnsFrom, openGroups_cons, ← Int.add_assoc]
  constructor
  · rintro ⟨returns, before⟩
    have start := before [] List.nil_prefix (List.cons_ne_nil c text).symm
    refine ⟨by simpa [openGroups] using start, returns, fun front isFront more => ?_⟩
    have further := before (c :: front) ((List.prefix_cons_inj c).mpr isFront) (by simpa using more)
    simpa only [openGroups_cons, ← Int.add_assoc] using further
  · rintro ⟨start, returns, before⟩
    refine ⟨returns, fun front isFront more => ?_⟩
    cases front with
    | nil => simpa [openGroups] using start
    | cons first front =>
      obtain ⟨rfl, isLater⟩ := List.cons_prefix_cons.mp isFront
      simpa only [openGroups_cons, ← Int.add_assoc] using before front isLater (by simpa using more)

/-- Where the count is zero already, nothing is left to be read. -/
theorem returnsFrom_zero : ReturnsFrom depth 0 text ↔ text = [] := by
  cases text with
  | nil => simp [returnsFrom_nil]
  | cons c later => simp [returnsFrom_cons]

/-- A count above what the depth allows never returns. -/
theorem not_returnsFrom_above (above : depth + 1 < count) : ¬ ReturnsFrom depth count text := by
  cases text with
  | nil => rw [returnsFrom_nil]; omega
  | cons c later => rw [returnsFrom_cons]; omega

/-- A counted group is an opening brace and what takes the count from one back to zero. -/
theorem isCounted_iff :
    IsCounted depth text ↔ ∃ inner, text = '{' :: inner ∧ ReturnsFrom depth 1 inner := by
  constructor
  · rintro ⟨opens, returns, before⟩
    obtain ⟨inner, rfl⟩ := List.head?_eq_some_iff.mp opens
    refine ⟨inner, rfl, returns, fun front isFront more => ?_⟩
    exact before ('{' :: front) ((List.prefix_cons_inj _).mpr isFront) (List.cons_ne_nil _ _)
      (by simpa using more)
  · rintro ⟨inner, rfl, returns, before⟩
    refine ⟨rfl, returns, fun front isFront filled more => ?_⟩
    cases front with
    | nil => exact absurd rfl filled
    | cons first front =>
      obtain ⟨rfl, isLater⟩ := List.cons_prefix_cons.mp isFront
      exact before front isLater (by simpa using more)

/-- Whether a text can be split behind what takes a count to zero does not depend on its first
character, once that is counted. -/
theorem splits_cons {c : Char} (next : Int) (start : count ≠ 0 ∧ count ≤ depth + 1)
    (counted : count + braceValue c = next) :
    (∃ part, ReturnsFrom depth count part ∧ c :: text = part ++ rest) ↔
      ∃ part, ReturnsFrom depth next part ∧ text = part ++ rest := by
  subst counted
  constructor
  · rintro ⟨part, returns, split⟩
    cases part with
    | nil => exact absurd (returnsFrom_nil.mp returns) start.1
    | cons d part =>
      obtain ⟨rfl, behind⟩ := List.cons.inj split
      exact ⟨part, (returnsFrom_cons.mp returns).2, behind⟩
  · rintro ⟨part, returns, rfl⟩
    exact ⟨c :: part, returnsFrom_cons.mpr ⟨start, returns⟩, rfl⟩

/-- Behind an opening brace, the scan for its closing brace passes exactly what takes the count back
to zero. The scan counts the groups inside the outer one, so its count is lower by one. -/
theorem afterClose_returns (bounded : level ≤ depth) :
    Braces.afterClose? depth level text = some rest ↔
      ∃ part, ReturnsFrom depth (level + 1) part ∧ text = part ++ rest := by
  have start {level : Nat} (bounded : level ≤ depth) :
      (level + 1 : Int) ≠ 0 ∧ (level + 1 : Int) ≤ depth + 1 := by omega
  fun_induction Braces.afterClose? depth level text with
  | case1 level =>
    constructor
    · intro passed
      cases passed
    · rintro ⟨part, returns, split⟩
      obtain ⟨rfl, -⟩ := List.append_eq_nil_iff.mp split.symm
      exact absurd (returnsFrom_nil.mp returns) (start bounded).1
  | case2 later =>
    rw [splits_cons 0 (start bounded) (by simp)]
    simp [returnsFrom_zero]
  | case3 level later inductionHypothesis =>
    rw [splits_cons (level + 1) (start bounded) (by rw [braceValue_close]; omega)]
    exact inductionHypothesis (by omega)
  | case4 level later deeper inductionHypothesis =>
    rw [splits_cons ((level + 1 : Nat) + 1) (start bounded) (by simp)]
    exact inductionHypothesis deeper
  | case5 level later atDepth =>
    rw [splits_cons (level + 2) (start bounded) (by rw [braceValue_open]; omega)]
    constructor
    · intro passed
      cases passed
    · rintro ⟨part, returns, -⟩
      exact absurd returns (not_returnsFrom_above (by omega))
  | case6 level c later outerOpen innerOpen opensNone inductionHypothesis =>
    have closesNone : c ≠ '}' := by
      cases level with
      | zero => exact outerOpen rfl
      | succ below => exact innerOpen below rfl
    have same : (level + 1 : Int) + braceValue c = level + 1 := by
      rw [braceValue_plain opensNone closesNone, Int.add_zero]
    rw [splits_cons _ (start bounded) same]
    exact inductionHypothesis bounded

/-- The scan for a group passes exactly the groups as they are counted. -/
theorem after_counted (depth : Nat) (text rest : Text) :
    Braces.after? depth text = some rest ↔ ∃ part, IsCounted depth part ∧ text = part ++ rest := by
  simp only [isCounted_iff]
  unfold Braces.after?
  split
  · rename_i later
    rw [afterClose_returns (Nat.zero_le depth)]
    constructor
    · rintro ⟨inner, returns, rfl⟩
      exact ⟨'{' :: inner, ⟨inner, rfl, returns⟩, rfl⟩
    · rintro ⟨_, ⟨inner, rfl, returns⟩, split⟩
      exact ⟨inner, returns, (List.cons.inj split).2⟩
  · rename_i notOpen
    refine ⟨nofun, ?_⟩
    rintro ⟨_, ⟨inner, rfl, -⟩, split⟩
    exact absurd split (notOpen _)

/-- At every place of every text, the scanner of groups stops exactly where a group ends that starts
there and holds groups on at most `depth` levels; and that is where the count of open groups is back
at zero for the first time, if it has never been above `depth + 1`. There is never a choice of where
a group ends, and where none ends there is no match.

Proof: the scanner passes exactly the groups, made in the one way or counted in the other. For the
first, a count of open groups leaves room for the levels below the depth. For the second, the scan
counts what the counter counts, without the outer group. -/
theorem group_language_exact (depth : Nat) (text : Text) (start : Nat) :
    Reads (.braces depth) (IsGroup depth) text start ∧
      Reads (.braces depth) (IsCounted depth) text start := by
  constructor
  · refine reads_of_members (Braces.after? depth) (fun _ _ => rfl) (after_group depth) ?_ text start
    rintro ⟨inner, -, empty⟩
    cases empty
  · refine reads_of_members (Braces.after? depth) (fun _ _ => rfl) (after_counted depth) ?_ text
      start
    rintro ⟨opens, -⟩
    cases opens

end TemplHighlight.TagLanguage
