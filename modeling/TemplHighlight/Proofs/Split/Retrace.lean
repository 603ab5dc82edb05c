import TemplHighlight.Proofs.Pattern.First
import TemplHighlight.Proofs.Split.Parts

/-!
# From the tokens back to what was found

The tokens of one kind say what the rule for that kind found, since the rules behind it leave its
tokens where they are and make others only of what is raw. So if these tokens are exactly the parts
of one role, the rule found exactly these parts. A search goes to the leftmost match, so no other
match started in what the rule left raw.
-/

namespace TemplHighlight

namespace Split

variable {rule : Rule} {trigger : Char}

/-- A rule that scans finds the first match, and none starts in front of it. -/
theorem findWith_scanned (scanner : rule.pattern.Scanner trigger) (plain : rule.lookbehind = false)
    {text : Text} {start stop : Nat} (found : findWith rule text = .ok (some (start, stop))) :
    rule.pattern.Quiet (text.take start) (text.drop start) ∧
      ∃ behind, rule.pattern.after? (text.drop start) = .ok (some behind) ∧
        stop = start + ((text.drop start).length - behind.length) := by
  obtain ⟨result, searched, rfl, -, same⟩ := search_of_findWith found
  rw [scanner.search_eq] at searched
  obtain ⟨front, back, rfl, quiet, -, starts⟩ := Pattern.scanFrom_passed scanner searched
  obtain ⟨behind, matched, rfl⟩ := starts result rfl
  have counted : start = front.length := by
    rw [← same plain, Nat.zero_add]
  rw [counted, List.take_left, List.drop_left, Nat.zero_add]
  exact ⟨quiet, behind, matched, rfl⟩

/-- No match starts in a text in which a rule that scans finds nothing. -/
theorem findWith_nothing (scanner : rule.pattern.Scanner trigger)
    (plain : rule.lookbehind = false) {text : Text} (missed : Misses (findWith rule) text) :
    rule.pattern.Quiet text [] := by
  rcases missed with nothing | ⟨start, stop, found, unordered⟩
  · have searched := search_of_missed plain nothing
    rw [scanner.search_eq] at searched
    obtain ⟨front, back, rfl, quiet, all, -⟩ := Pattern.scanFrom_passed scanner searched
    cases all rfl
    rw [List.append_nil]
    exact quiet
  · obtain ⟨-, behind, matched, stops⟩ := findWith_scanned scanner plain found
    have shorter := scanner.shorter _ _ matched
    omega

/-! ## From the parts that are shown back to the parts that are done -/

variable {Role : Type} {shows : Portion Role → Tree → Prop} {done : List Role} {mine : Role}

/-- Items as the rules for some roles leave them: tokens that can show only parts of these roles,
and raw text between them. -/
inductive Settled (shows : Portion Role → Tree → Prop) (done : List Role) : List Tree → Prop where
  | rest (text : Text) : Settled shows done (raw text)
  | token (text : Text) {token : Tree} {items : List Tree} (isToken : token.isToken = true)
      (only : ∀ part, shows part token → part.role ∈ done) (behind : Settled shows done items) :
      Settled shows done (raw text ++ token :: items)

/-- Settled items are joined by a token. -/
theorem Settled.join {before items : List Tree} {token : Tree} (front : Settled shows done before)
    (isToken : token.isToken = true) (only : ∀ part, shows part token → part.role ∈ done)
    (behind : Settled shows done items) : Settled shows done (before ++ token :: items) := by
  induction front with
  | rest text => exact .token text isToken only behind
  | token text firstToken firstOnly _ inductionHypothesis =>
    rw [List.append_assoc]
    exact .token text firstToken firstOnly inductionHypothesis

/-- A raw text that is split is settled. -/
theorem TextSteps.settled {find : Finder} {make : Maker} (makes : Makes shows make mine)
    {text : Text} {result : List Tree} (steps : TextSteps find make text result) :
    Settled shows (mine :: done) result := by
  induction steps with
  | empty => exact .rest []
  | @whole text filled missed =>
    cases text with
    | nil => exact absurd rfl filled
    | cons c rest => exact .rest (c :: rest)
  | cut found ordered made behind inductionHypothesis =>
    obtain ⟨isToken, shown⟩ := makes _ _ made
    refine .token _ isToken ?_ inductionHypothesis
    intro part shows
    rw [(shown part).mp shows]
    exact List.mem_cons_self

/-- A plain rule leaves items settled. -/
theorem Settled.grow {find : Finder} {make : Maker} (makes : Makes shows make mine)
    {items result : List Tree} (settled : Settled shows done items)
    (steps : EachSteps find make items result) : Settled shows (mine :: done) result := by
  induction settled generalizing result with
  | rest text =>
    rw [← List.append_nil (raw text)] at steps
    obtain ⟨front, back, split, behind, rfl⟩ := steps.of_raw
    cases behind
    rw [List.append_nil]
    exact split.settled makes
  | token text isToken only _ inductionHypothesis =>
    obtain ⟨front, back, split, behind, rfl⟩ := steps.of_raw
    cases behind with
    | raw raw _ _ => exact absurd isToken raw
    | token _ behind =>
      exact (split.settled makes).join isToken
        (fun part shown => List.mem_cons_of_mem mine (only part shown)) (inductionHypothesis behind)

/-- Raw text at a stage comes from parts that are not done, and what is behind it from the parts
behind these. -/
theorem Stage.of_raw {text : Text} {parts : List (Portion Role)} {items : List Tree}
    (stage : Stage shows done parts (raw text ++ items)) :
    ∃ run later, parts = run ++ later ∧ textOf run = text ∧ (∀ part ∈ run, part.role ∉ done) ∧
      Stage shows done later items := by
  have none : ∀ part ∈ ([] : List (Portion Role)), part.role ∉ done := nofun
  cases text with
  | nil => exact ⟨[], parts, rfl, rfl, none, stage⟩
  | cons c rest =>
    generalize start : raw (c :: rest) ++ items = all at stage
    cases stage with
    | rest pending =>
      cases text : textOf parts with
      | nil =>
        rw [text] at start
        cases start
      | cons d more =>
        rw [text] at start
        cases start
        exact ⟨parts, [], (List.append_nil parts).symm, text, pending, .rest none⟩
    | @token run later part token behind pending isDone isToken shown stage =>
      cases text : textOf run with
      | nil =>
        rw [text] at start
        cases start
        cases isToken
      | cons d more =>
        rw [text] at start
        cases start
        exact ⟨run, part :: later, rfl, text, pending, .token none isDone isToken shown stage⟩

/-- Parts of which each has characters have none together only if there are none of them. -/
theorem eq_nil_of_textOf {parts : List (Portion Role)} (filled : ∀ part ∈ parts, part.text ≠ [])
    (empty : textOf parts = []) : parts = [] := by
  cases parts with
  | nil => rfl
  | cons part later =>
    exact absurd (List.append_eq_nil_iff.mp empty).1 (filled part List.mem_cons_self)

/-- A token at a stage shows the first part. -/
theorem Stage.of_token {parts : List (Portion Role)} {token : Tree} {items : List Tree}
    (filled : ∀ part ∈ parts, part.text ≠ []) (isToken : token.isToken = true)
    (stage : Stage shows done parts (token :: items)) :
    ∃ part later, parts = part :: later ∧ part.role ∈ done ∧ shows part token ∧
      Stage shows done later items := by
  generalize start : token :: items = all at stage
  cases stage with
  | rest pending =>
    cases text : textOf parts with
    | nil =>
      rw [text] at start
      cases start
    | cons c more =>
      rw [text] at start
      cases start
      cases isToken
  | @token run later part token behind pending isDone _ shown stage =>
    cases text : textOf run with
    | nil =>
      rw [text] at start
      cases start
      cases eq_nil_of_textOf (fun part inRun => filled part (List.mem_append_left _ inRun)) text
      exact ⟨part, later, rfl, isDone, shown, stage⟩
    | cons c more =>
      rw [text] at start
      cases start
      cases isToken

/-- There are no parts at a stage without items. -/
theorem Stage.of_nil {parts : List (Portion Role)} (filled : ∀ part ∈ parts, part.text ≠ [])
    (stage : Stage shows done parts []) : parts = [] := by
  generalize start : [] = all at stage
  cases stage with
  | rest pending =>
    cases text : textOf parts with
    | nil => exact eq_nil_of_textOf filled text
    | cons c more =>
      rw [text] at start
      cases start
  | token => cases List.append_eq_nil_iff.mp start.symm |>.2

/-- What holds throughout the text of parts holds throughout the text of each. -/
theorem each_throughout {holds : Text → Prop} {front back : List (Portion Role)}
    (inFront : Throughout holds (textOf front) (textOf back))
    (inBack : Each (fun part later => part.role ≠ mine → Throughout holds part.text (textOf later))
      back) :
    Each (fun part later => part.role ≠ mine → Throughout holds part.text (textOf later))
      (front ++ back) := by
  induction front with
  | nil => exact inBack
  | cons part front inductionHypothesis =>
    obtain ⟨here, behind⟩ := throughout_append.mp inFront
    refine ⟨fun _ => ?_, inductionHypothesis behind⟩
    have follow : textOf (front ++ back) = textOf front ++ textOf back := textOf_append front back
    exact follow ▸ here

section

variable {find : Finder} {make : Maker} {holds : Text → Prop}

/-- If the tokens that a rule made of a raw text show parts of its role, the text is the text of
parts that were not done, and what holds throughout all that the rule has passed holds throughout
those that are not of its role. -/
theorem TextSteps.retrace
    (passed : ∀ text start stop, find text = .ok (some (start, stop)) →
      Throughout holds (text.take start) (text.drop start))
    (nothing : ∀ text, Misses find text → Throughout holds text [])
    (makes : Makes shows make mine) (fresh : mine ∉ done) {text : Text} {front behind : List Tree}
    {parts : List (Portion Role)} (filled : ∀ part ∈ parts, part.text ≠ [])
    (steps : TextSteps find make text front)
    (stage : Stage shows (mine :: done) parts (front ++ behind)) :
    ∃ run later, parts = run ++ later ∧ textOf run = text ∧ (∀ part ∈ run, part.role ∉ done) ∧
      Stage shows (mine :: done) later behind ∧
      Each (fun part rest => part.role ≠ mine → Throughout holds part.text (textOf rest)) run := by
  have pendingBefore {run : List (Portion Role)}
      (pending : ∀ part ∈ run, part.role ∉ mine :: done) :
      ∀ part ∈ run, part.role ∉ done :=
    fun part inRun isDone => pending part inRun (List.mem_cons_of_mem mine isDone)
  induction steps generalizing parts with
  | empty => exact ⟨[], parts, rfl, rfl, nofun, stage, trivial⟩
  | @whole text filledText missed =>
    have isRaw : [Tree.text text] = raw text := by
      cases text with
      | nil => exact absurd rfl filledText
      | cons c rest => rfl
    rw [isRaw] at stage
    obtain ⟨run, later, rfl, same, pending, stage⟩ := stage.of_raw
    refine ⟨run, later, rfl, same, pendingBefore pending, stage, ?_⟩
    have all : Throughout holds (textOf run) (textOf ([] : List (Portion Role))) :=
      same ▸ nothing text missed
    have none : Each (fun part rest => part.role ≠ mine → Throughout holds part.text (textOf rest))
        ([] : List (Portion Role)) := trivial
    have inRun := each_throughout all none
    rwa [List.append_nil] at inRun
  | @cut text start stop token later found ordered made split inductionHypothesis =>
    rw [List.append_assoc] at stage
    obtain ⟨run, more, rfl, same, pending, stage⟩ := stage.of_raw
    obtain ⟨isToken, shown⟩ := makes _ _ made
    have filledMore : ∀ part ∈ more, part.text ≠ [] :=
      fun part inMore => filled part (List.mem_append_right run inMore)
    obtain ⟨part, more, rfl, -, shows, stage⟩ := stage.of_token filledMore isToken
    obtain ⟨others, rest, rfl, sameBehind, pendingBehind, goesOn, inOthers⟩ :=
      inductionHypothesis (fun part inMore => filledMore part (List.mem_cons_of_mem _ inMore)) stage
    cases (shown part).mp shows
    have whole := cut_text text ordered
    have cutOff : text.drop start = (text.take stop).drop start ++ text.drop stop := by
      have halves : text.take start ++ text.drop start = text := List.take_append_drop start text
      exact List.append_cancel_left (halves.trans whole.symm)
    refine ⟨run ++ ⟨mine, (text.take stop).drop start⟩ :: others, rest, ?_, ?_, ?_, goesOn, ?_⟩
    · rw [List.append_assoc, List.cons_append]
    · have split : textOf (⟨mine, (text.take stop).drop start⟩ :: others) =
          (text.take stop).drop start ++ textOf others := rfl
      rw [textOf_append, same, split, sameBehind]
      exact whole
    · intro part member
      rcases List.mem_append.mp member with inRun | inRest
      · exact pendingBefore pending part inRun
      · rcases List.mem_cons.mp inRest with rfl | inOthers
        · exact fresh
        · exact pendingBehind part inOthers
    · refine each_throughout ?_ ⟨fun other => absurd rfl other, inOthers⟩
      have before := passed text start stop found
      rw [cutOff, ← same, ← sameBehind] at before
      exact before

variable [DecidableEq Role]

/-- What holds throughout parts that are not done, up to the next part that is, holds of each with
what is pending behind it. -/
theorem each_pending {run back : List (Portion Role)} (pending : ∀ part ∈ run, part.role ∉ done)
    (bound : ∀ next ∈ back.head?, next.role ∈ done)
    (inRun : Each (fun part rest => part.role ≠ mine → Throughout holds part.text (textOf rest)) run)
    (inBack : Each (fun part later => part.role ∉ mine :: done →
      Throughout holds part.text (pendingText done later)) back) :
    Each (fun part later => part.role ∉ mine :: done →
      Throughout holds part.text (pendingText done later)) (run ++ back) := by
  induction run with
  | nil => exact inBack
  | cons part run inductionHypothesis =>
    obtain ⟨-, behind⟩ := List.forall_mem_cons.mp pending
    have follow : pendingText done (run ++ back) = textOf run := by
      cases back with
      | nil =>
        rw [List.append_nil]
        exact pendingText_pending behind
      | cons next later =>
        rw [pendingText_append (bound next rfl)]
        exact pendingText_pending behind
    refine ⟨fun other => ?_, inductionHypothesis behind inRun.2⟩
    have notMine : part.role ≠ mine := fun same => other (same ▸ List.mem_cons_self)
    exact follow ▸ inRun.1 notMine

/-- If the tokens behind a rule show parts of its role and of the roles done before, the items in
front of the rule were at the stage before, and what holds throughout all that the rule has passed
holds throughout the parts that stay raw. -/
theorem Settled.retrace
    (passed : ∀ text start stop, find text = .ok (some (start, stop)) →
      Throughout holds (text.take start) (text.drop start))
    (nothing : ∀ text, Misses find text → Throughout holds text [])
    (makes : Makes shows make mine) (fresh : mine ∉ done) {items result : List Tree}
    {parts : List (Portion Role)} (filled : ∀ part ∈ parts, part.text ≠ [])
    (settled : Settled shows done items) (steps : EachSteps find make items result)
    (stage : Stage shows (mine :: done) parts result) :
    Stage shows done parts items ∧
      Each (fun part later => part.role ∉ mine :: done →
        Throughout holds part.text (pendingText done later)) parts := by
  induction settled generalizing parts result with
  | rest text =>
    rw [← List.append_nil (raw text)] at steps
    obtain ⟨front, back, split, behind, rfl⟩ := steps.of_raw
    cases behind
    obtain ⟨run, later, rfl, same, pending, stage, inRun⟩ :=
      split.retrace passed nothing makes fresh filled stage
    cases stage.of_nil fun part inLater => filled part (List.mem_append_right run inLater)
    refine ⟨?_, each_pending pending nofun inRun trivial⟩
    rw [← same, List.append_nil]
    exact .rest pending
  | @token text token items isToken only _ inductionHypothesis =>
    obtain ⟨front, back, split, behind, rfl⟩ := steps.of_raw
    cases behind with
    | raw raw _ _ => exact absurd isToken raw
    | token _ behind =>
      obtain ⟨run, later, rfl, same, pending, stage, inRun⟩ :=
        split.retrace passed nothing makes fresh filled stage
      have filledLater : ∀ part ∈ later, part.text ≠ [] :=
        fun part inLater => filled part (List.mem_append_right run inLater)
      obtain ⟨part, later, rfl, -, shown, stage⟩ := stage.of_token filledLater isToken
      have isDone := only part shown
      obtain ⟨before, inLater⟩ := inductionHypothesis
        (fun part inLater => filledLater part (List.mem_cons_of_mem _ inLater)) behind stage
      refine ⟨?_, each_pending pending ?_ inRun ⟨fun other => ?_, inLater⟩⟩
      · rw [← same]
        exact .token pending isDone isToken shown before
      · rintro _ ⟨⟩
        exact isDone
      · exact absurd (List.mem_cons_of_mem mine isDone) other

/-- If the tokens behind a rule show parts of its role and of the roles done before, the items in
front of the rule were at the stage before. -/
theorem Settled.back (makes : Makes shows make mine) (fresh : mine ∉ done)
    {items result : List Tree} {parts : List (Portion Role)}
    (filled : ∀ part ∈ parts, part.text ≠ [])
    (settled : Settled shows done items) (steps : EachSteps find make items result)
    (stage : Stage shows (mine :: done) parts result) : Stage shows done parts items := by
  have always (text follow : Text) : Throughout (fun _ => True) text follow := fun _ _ _ => trivial
  exact (settled.retrace (fun text start stop _ => always (text.take start) (text.drop start))
    (fun text _ => always text []) makes fresh filled steps stage).1

/-- If moreover the rule scans for its matches, no match starts in the parts that stay raw. -/
theorem Settled.back_quiet (scanner : rule.pattern.Scanner trigger)
    (plain : rule.lookbehind = false) (makes : Makes shows make mine) (fresh : mine ∉ done)
    {items result : List Tree} {parts : List (Portion Role)}
    (filled : ∀ part ∈ parts, part.text ≠ [])
    (settled : Settled shows done items) (steps : EachSteps (findWith rule) make items result)
    (stage : Stage shows (mine :: done) parts result) :
    Stage shows done parts items ∧ Each (fun part later => part.role ∉ mine :: done →
      rule.pattern.Quiet part.text (pendingText done later)) parts :=
  settled.retrace (fun _ _ _ found => (findWith_scanned scanner plain found).1)
    (fun _ => findWith_nothing scanner plain) makes fresh filled steps stage

end

/-- A greedy rule that made none of the items behind it has changed nothing. -/
theorem GreedySteps.of_unmade {find : Finder} {make : Maker} {items result : List Tree}
    (unmade : ∀ item ∈ result, ∀ text, make text ≠ .ok item)
    (steps : GreedySteps find make items result) : result = items := by
  induction steps with
  | done => rfl
  | none raw missed => rfl
  | token isToken behind inductionHypothesis =>
    rw [inductionHypothesis (List.forall_mem_cons.mp unmade).2]
  | pass raw found empty behind inductionHypothesis =>
    rw [inductionHypothesis (List.forall_mem_cons.mp unmade).2]
  | cut raw found ordered here made behind =>
    exact absurd made (unmade _ (List.mem_append_right _ List.mem_cons_self) _)
  | @later item items passed behind result start stop raw found ordered spanned some rest
      inductionHypothesis =>
    rw [inductionHypothesis (List.forall_mem_append.mp unmade).2]
    have whole := spanBefore_append start (item :: items)
    rw [spanned] at whole
    exact whole

end Split

end TemplHighlight
