import TemplHighlight.Proofs.Pattern.Leftmost
import TemplHighlight.Proofs.Split.Lossless

/-!
# Splitting a text along its parts

A text that consists of parts, each with a role, is split rule by rule. At every stage the parts of
some roles are tokens, and the others stand raw between them, joined to one text where they are
neighbours. A rule that finds exactly the parts of one more role leads to the next stage: it has to
take such a part as a whole, and no match may start anywhere else in what is still raw. Both depend
on what follows, but only up to the next token.
-/

namespace TemplHighlight.Split

/-! ## Greedy rules that do no more than others -/

/-- What is left of one raw text is the text without its first characters. -/
theorem dropSource_alone {count : Nat} (positive : 0 < count) (text : Text) :
    dropSource count [.text text] = raw (text.drop count) := by
  obtain ⟨less, rfl⟩ := Nat.exists_eq_add_one_of_ne_zero (Nat.ne_of_gt positive)
  rw [dropSource]
  split
  · rename_i covered
    have none : text.drop (less + 1) = [] := List.drop_eq_nil_of_le covered
    rw [none]
    cases less + 1 - (Tree.text text).source.length <;> rfl
  · rename_i cut
    have some : text.drop (less + 1) ≠ [] := fun none => cut (List.drop_eq_nil_iff.mp none)
    cases behind : text.drop (less + 1) with
    | nil => exact absurd behind some
    | cons c rest =>
      show [Tree.text (text.drop (less + 1))] = _
      rw [behind]
      rfl

/-- Raw items that start with an item are this item alone, and it is a text with characters. -/
theorem raw_eq_cons {text : Text} {item : Tree} {items : List Tree}
    (start : raw text = item :: items) : text ≠ [] ∧ item = .text text ∧ items = [] := by
  cases text with
  | nil => cases start
  | cons c rest =>
    cases start
    exact ⟨List.cons_ne_nil c rest, rfl, rfl⟩

/-- A raw text by itself has its own text. -/
theorem sources_text (text : Text) : Tree.sources [.text text] = text := List.append_nil text

/-- A greedy rule does to one raw text what a plain rule does, if all that it finds starts inside
the text. -/
theorem GreedySteps.alone {find : Finder} {make : Maker} {text : Text} {result : List Tree}
    (inside : ∀ text start stop, find text = .ok (some (start, stop)) → start < stop →
      start < text.length)
    (steps : GreedySteps find make (raw text) result) : TextSteps find make text result := by
  generalize start : raw text = items at steps
  induction steps generalizing text with
  | done =>
    cases text with
    | nil => exact .empty
    | cons c rest => cases start
  | token isToken behind _ =>
    obtain ⟨-, rfl, -⟩ := raw_eq_cons start
    cases isToken
  | none raw missed =>
    obtain ⟨filled, rfl, rfl⟩ := raw_eq_cons start
    rw [sources_text] at missed
    exact .whole filled (.inl missed)
  | pass raw found empty behind _ =>
    obtain ⟨filled, rfl, rfl⟩ := raw_eq_cons start
    cases behind
    rw [sources_text] at found
    exact .whole filled (.inr ⟨_, _, found, empty⟩)
  | cut raw found ordered here made behind inductionHypothesis =>
    obtain ⟨filled, rfl, rfl⟩ := raw_eq_cons start
    rw [sources_text] at found made ⊢
    refine .cut found ordered made (inductionHypothesis ?_)
    exact (dropSource_alone (Nat.zero_lt_of_lt ordered) _).symm
  | later raw found ordered spanned some rest _ =>
    obtain ⟨-, rfl, rfl⟩ := raw_eq_cons start
    rw [sources_text] at found
    have here : _ < (Tree.text text).source.length := inside _ _ _ found ordered
    rw [spanBefore, if_neg (Nat.not_le.mpr here)] at spanned
    cases spanned
    exact absurd rfl some

/-- A greedy rule whose matches never start in raw text changes nothing. -/
theorem GreedySteps.same {find : Finder} {make : Maker} {items result : List Tree}
    (outside : ∀ item later, item :: later <:+ items → ¬ item.isToken = true →
      ∀ start stop, find (Tree.sources (item :: later)) = .ok (some (start, stop)) →
        item.source.length ≤ start)
    (steps : GreedySteps find make items result) : result = items := by
  induction steps with
  | done => rfl
  | none raw missed => rfl
  | @token item items result isToken behind inductionHypothesis =>
    rw [inductionHypothesis fun other later ends =>
      outside other later (ends.trans (List.suffix_cons item items))]
  | @pass item items result start stop raw found empty behind inductionHypothesis =>
    rw [inductionHypothesis fun other later ends =>
      outside other later (ends.trans (List.suffix_cons item items))]
  | @cut item items result start stop token raw found ordered here made behind =>
    have notHere := outside item items (List.suffix_refl _) raw start stop found
    exact absurd here (Nat.not_lt.mpr notHere)
  | @later item items passed behind result start stop raw found ordered spanned some rest
      inductionHypothesis =>
    have whole := spanBefore_append start (item :: items)
    rw [spanned] at whole
    have ends : behind <:+ item :: items := ⟨passed, whole⟩
    rw [inductionHypothesis fun other later inside => outside other later (inside.trans ends)]
    exact whole

/-! ## Parts of a text -/

/-- A part of a text and the role that it plays. -/
structure Portion (Role : Type) where
  role : Role
  text : Text

variable {Role : Type}

/-- The text of parts, one after the other. -/
def textOf (parts : List (Portion Role)) : Text := parts.flatMap Portion.text

/-- Two lists of parts have the text of the one and then of the other. -/
theorem textOf_append (front back : List (Portion Role)) :
    textOf (front ++ back) = textOf front ++ textOf back := List.flatMap_append

/-- Something holds of every part together with the parts behind it. -/
def Each (holds : Portion Role → List (Portion Role) → Prop) : List (Portion Role) → Prop
  | [] => True
  | part :: later => holds part later ∧ Each holds later

/-- What holds of every part with what is behind it, and implies something else, makes that hold of
every part. -/
theorem Each.mono {holds others : Portion Role → List (Portion Role) → Prop}
    (implies : ∀ part later, holds part later → others part later) {parts : List (Portion Role)}
    (each : Each holds parts) : Each others parts := by
  induction parts with
  | nil => trivial
  | cons part later inductionHypothesis =>
    exact ⟨implies part later each.1, inductionHypothesis each.2⟩

/-- Where one thing holds of every part and another one does, both do. -/
theorem Each.and {holds others : Portion Role → List (Portion Role) → Prop}
    {parts : List (Portion Role)}
    (each : Each holds parts) (other : Each others parts) :
    Each (fun part later => holds part later ∧ others part later) parts := by
  induction parts with
  | nil => trivial
  | cons part later inductionHypothesis =>
    exact ⟨⟨each.1, other.1⟩, inductionHypothesis each.2 other.2⟩

/-- What holds of every part holds of every part at the end. -/
theorem Each.behind {holds : Portion Role → List (Portion Role) → Prop}
    {front back : List (Portion Role)}
    (each : Each holds (front ++ back)) : Each holds back := by
  induction front with
  | nil => exact each
  | cons part front inductionHypothesis => exact inductionHypothesis each.2

variable {shows : Portion Role → Tree → Prop}

/-- The items at a stage: every part whose role is done is shown as a token, and the parts between
such tokens are joined to raw text. -/
inductive Stage (shows : Portion Role → Tree → Prop) (done : List Role) :
    List (Portion Role) → List Tree → Prop where
  | rest {run : List (Portion Role)} (pending : ∀ part ∈ run, part.role ∉ done) :
      Stage shows done run (raw (textOf run))
  | token {run later : List (Portion Role)} {part : Portion Role} {token : Tree} {items : List Tree}
      (pending : ∀ part ∈ run, part.role ∉ done) (isDone : part.role ∈ done)
      (isToken : token.isToken = true) (shown : shows part token)
      (behind : Stage shows done later items) :
      Stage shows done (run ++ part :: later) (raw (textOf run) ++ token :: items)

/-- Two stages are joined by a token. -/
theorem Stage.join {done : List Role} {front later : List (Portion Role)} {part : Portion Role}
    {before items : List Tree} {token : Tree} (stage : Stage shows done front before)
    (isDone : part.role ∈ done) (isToken : token.isToken = true) (shown : shows part token)
    (behind : Stage shows done later items) :
    Stage shows done (front ++ part :: later) (before ++ token :: items) := by
  induction stage with
  | rest pending => exact .token pending isDone isToken shown behind
  | token pending firstDone firstToken firstShown _ inductionHypothesis =>
    rw [List.append_assoc, List.append_assoc]
    exact .token pending firstDone firstToken firstShown inductionHypothesis

/-! ## From stage to stage -/

variable [DecidableEq Role]

/-- What stays raw at the start of parts, up to the next one whose role is done. -/
def pendingText (done : List Role) (parts : List (Portion Role)) : Text :=
  textOf (parts.takeWhile fun part => part.role ∉ done)

/-- Parts of which none is done stay raw altogether. -/
theorem pendingText_pending {done : List Role} {parts : List (Portion Role)}
    (pending : ∀ part ∈ parts, part.role ∉ done) : pendingText done parts = textOf parts := by
  induction parts with
  | nil => rfl
  | cons part later inductionHypothesis =>
    obtain ⟨first, behind⟩ := List.forall_mem_cons.mp pending
    unfold pendingText at inductionHypothesis ⊢
    rw [List.takeWhile_cons, if_pos (decide_eq_true first)]
    exact congrArg (part.text ++ ·) (inductionHypothesis behind)

/-- A part that is done ends what stays raw. -/
theorem pendingText_append {done : List Role} {part : Portion Role} (isDone : part.role ∈ done)
    (front later : List (Portion Role)) :
    pendingText done (front ++ part :: later) = pendingText done front := by
  induction front with
  | nil => simp [pendingText, isDone]
  | cons first front inductionHypothesis =>
    unfold pendingText at inductionHypothesis ⊢
    rw [List.cons_append, List.takeWhile_cons, List.takeWhile_cons]
    split
    · exact congrArg (first.text ++ ·) inductionHypothesis
    · rfl

/-- How a rule for the parts of one role reads a part, when the parts of some roles are done
already: it takes a part of its role as a whole, and no match starts in another part that is still
raw. -/
structure Reads (pattern : Pattern) (done : List Role) (mine : Role) (part : Portion Role)
    (later : List (Portion Role)) : Prop where
  takes : part.role = mine → part.text ≠ [] ∧ pattern.Takes part.text (pendingText done later)
  quiet : part.role ≠ mine → part.role ∉ done → pattern.Quiet part.text (pendingText done later)

/-- The tokens that are made show parts of one role, each the part with its text. -/
def Makes (shows : Portion Role → Tree → Prop) (make : Maker) (mine : Role) : Prop :=
  ∀ text token, make text = .ok token →
    token.isToken = true ∧ ∀ part, shows part token ↔ part = ⟨mine, text⟩

variable {rule : Rule} {make : Maker} {done : List Role} {mine : Role}

/-- A rule without lookbehind finds a match right behind a quiet text. -/
theorem findWith_takes (plain : rule.lookbehind = false) {front part follow : Text}
    (quiet : rule.pattern.Quiet front (part ++ follow)) (takes : rule.pattern.Takes part follow) :
    findWith rule (front ++ (part ++ follow)) =
      .ok (some (front.length, front.length + part.length)) := by
  obtain ⟨found, searched, start, stop⟩ := Pattern.search_takes quiet takes
  rw [findWith_of_search plain searched, start, stop]

/-- A rule finds nothing in a quiet text. -/
theorem findWith_misses {text : Text} (quiet : rule.pattern.Quiet text [])
    (ended : rule.pattern.Misses []) : findWith rule text = .ok none := by
  unfold findWith Rule.find
  rw [Pattern.search_misses quiet ended]
  rfl

/-- Where a part is taken behind a quiet text, that text stays raw, and a token is made of the
part. -/
theorem TextSteps.of_part (plain : rule.lookbehind = false) {front part follow : Text}
    (filled : part ≠ []) (quiet : rule.pattern.Quiet front (part ++ follow))
    (takes : rule.pattern.Takes part follow) {result : List Tree}
    (steps : TextSteps (findWith rule) make (front ++ (part ++ follow)) result) :
    ∃ token items, make part = .ok token ∧ TextSteps (findWith rule) make follow items ∧
      result = raw front ++ token :: items := by
  have some : 0 < part.length := List.length_pos_iff.mpr filled
  have here : ((front ++ (part ++ follow)).take (front.length + part.length)).drop front.length =
      part := by
    rw [← List.append_assoc, ← List.length_append, List.take_left, List.drop_left]
  have behind : (front ++ (part ++ follow)).drop (front.length + part.length) = follow := by
    rw [← List.append_assoc, ← List.length_append, List.drop_left]
  obtain ⟨token, items, made, goesOn, rfl⟩ :=
    steps.of_found (by simp [filled]) (findWith_takes plain quiet takes) (by omega)
  rw [here] at made
  rw [behind] at goesOn
  rw [List.take_left]
  exact ⟨token, items, made, goesOn, rfl⟩

/-- Raw parts come to the next stage, the parts in front having been passed already. -/
theorem TextSteps.stage (plain : rule.lookbehind = false) (ended : rule.pattern.Misses [])
    (makes : Makes shows make mine)
    {front run : List (Portion Role)} (passed : ∀ part ∈ front, part.role ∉ mine :: done)
    (quiet : rule.pattern.Quiet (textOf front) (textOf run))
    (pending : ∀ part ∈ run, part.role ∉ done) (reads : Each (Reads rule.pattern done mine) run)
    {result : List Tree}
    (steps : TextSteps (findWith rule) make (textOf front ++ textOf run) result) :
    Stage shows (mine :: done) (front ++ run) result := by
  induction run generalizing front result with
  | nil =>
    have nothing : textOf ([] : List (Portion Role)) = [] := rfl
    rw [nothing] at quiet
    rw [nothing, List.append_nil] at steps
    rw [steps.of_missed (findWith_misses quiet ended), List.append_nil]
    exact .rest passed
  | cons part later inductionHypothesis =>
    obtain ⟨first, behind⟩ := List.forall_mem_cons.mp pending
    have follow : pendingText done later = textOf later := pendingText_pending behind
    have split : textOf (part :: later) = part.text ++ textOf later := rfl
    rw [split] at quiet steps
    by_cases isMine : part.role = mine
    · obtain ⟨filled, takes⟩ := reads.1.takes isMine
      rw [follow] at takes
      obtain ⟨token, items, made, goesOn, rfl⟩ := steps.of_part plain filled quiet takes
      obtain ⟨isToken, shown⟩ := makes _ token made
      have none : ∀ part ∈ ([] : List (Portion Role)), part.role ∉ mine :: done := nofun
      have next : Stage shows (mine :: done) ([] ++ later) items :=
        inductionHypothesis none (throughout_nil _ _) behind reads.2 goesOn
      have same : part = ⟨mine, part.text⟩ := isMine ▸ rfl
      exact .token passed (by simp [isMine]) isToken ((shown part).mpr same) next
    · have quietHere : rule.pattern.Quiet part.text (textOf later) :=
        follow ▸ reads.1.quiet isMine first
      have longer : textOf (front ++ [part]) = textOf front ++ part.text := by
        simp [textOf]
      have passedHere : ∀ other ∈ front ++ [part], other.role ∉ mine :: done := by
        intro other member
        rcases List.mem_append.mp member with inFront | isPart
        · exact passed other inFront
        · rw [List.mem_singleton.mp isPart]
          simp [isMine, first]
      have stage : Stage shows (mine :: done) ((front ++ [part]) ++ later) result := by
        refine inductionHypothesis passedHere ?_ behind reads.2 ?_
        · rw [longer]
          exact throughout_append.mpr ⟨quiet, quietHere⟩
        · rw [longer, List.append_assoc]
          exact steps
      rw [List.append_assoc] at stage
      exact stage

/-- What a rule reads in front of a part that is done does not depend on the parts behind. -/
theorem reads_front {pattern : Pattern} {part : Portion Role} (isDone : part.role ∈ done)
    {front later : List (Portion Role)}
    (reads : Each (Reads pattern done mine) (front ++ part :: later)) :
    Each (Reads pattern done mine) front ∧ Each (Reads pattern done mine) later := by
  induction front with
  | nil => exact ⟨trivial, reads.2⟩
  | cons first front inductionHypothesis =>
    obtain ⟨inFront, behind⟩ := inductionHypothesis reads.2
    have same := pendingText_append isDone front later
    refine ⟨⟨⟨?_, ?_⟩, inFront⟩, behind⟩
    · rw [← same]
      exact reads.1.takes
    · rw [← same]
      exact reads.1.quiet

/-- A plain rule for the parts of one more role leads from one stage to the next. -/
theorem Stage.grow (plain : rule.lookbehind = false) (ended : rule.pattern.Misses [])
    (makes : Makes shows make mine)
    {parts : List (Portion Role)} {items result : List Tree} (stage : Stage shows done parts items)
    (reads : Each (Reads rule.pattern done mine) parts)
    (steps : EachSteps (findWith rule) make items result) :
    Stage shows (mine :: done) parts result := by
  have ofRun {run : List (Portion Role)} {front : List Tree}
      (pending : ∀ part ∈ run, part.role ∉ done)
      (reads : Each (Reads rule.pattern done mine) run)
      (steps : TextSteps (findWith rule) make (textOf run) front) :
      Stage shows (mine :: done) ([] ++ run) front := by
    have none : ∀ part ∈ ([] : List (Portion Role)), part.role ∉ mine :: done := nofun
    exact steps.stage plain ended makes none (throughout_nil _ _) pending reads
  induction stage generalizing result with
  | @rest run pending =>
    rw [← List.append_nil (raw (textOf run))] at steps
    obtain ⟨front, back, split, behind, rfl⟩ := steps.of_raw
    cases behind
    rw [List.append_nil]
    exact ofRun pending reads split
  | token pending isDone isToken shown _ inductionHypothesis =>
    obtain ⟨inRun, inLater⟩ := reads_front isDone reads
    obtain ⟨front, back, split, behind, rfl⟩ := steps.of_raw
    cases behind with
    | raw raw _ _ => exact absurd isToken raw
    | token _ behind =>
      exact (ofRun pending inRun split).join (List.mem_cons_of_mem mine isDone) isToken shown
        (inductionHypothesis inLater behind)

end TemplHighlight.Split
