import TemplHighlight.Proofs.Pattern.Reach

/-!
# Matching at the start of a text

Which texts a regular expression matches at their first character can be read off the first parts
of the expression. A run of characters at the end of an expression takes as many as there are.
-/

namespace TemplHighlight

namespace Regex

/-- A character of the set that stands there is taken. -/
theorem run_one_cons {anyCase : Bool} {set : CharSet} {place : Cursor} {c : Char} {rest : Text}
    (front : place.rest = c :: rest) (member : set.has anyCase c = true) (next : Continuation) :
    (one set).run anyCase place next = next ⟨some c, rest, place.pos + 1, place.captured⟩ := by
  simp only [run, front, member, if_true]

/-- Where no character of the set stands, none is matched. -/
theorem run_one_none {anyCase : Bool} {set : CharSet} {place : Cursor}
    (stops : ∀ c ∈ place.rest.head?, set.has anyCase c = false) (next : Continuation) :
    (one set).run anyCase place next = none := by
  unfold run
  cases front : place.rest with
  | nil => rfl
  | cons c rest =>
    have other : set.has anyCase c = false := stops c (by rw [front]; rfl)
    simp [other]

/-- A literal text is matched where its first two characters stand, up to their case. -/
theorem run_literal {anyCase : Bool} {first second : Char} {more : Text} {place found : Cursor}
    {next : Continuation}
    (matched : (literal (first :: second :: more)).run anyCase place next = some found) :
    ∃ c d rest, place.rest = c :: d :: rest ∧ (CharSet.among [first]).has anyCase c = true ∧
      (CharSet.among [second]).has anyCase d = true := by
  have start : (one (.among [first])).run anyCase place
      (fun middle => (literal (second :: more)).run anyCase middle next) = some found := matched
  obtain ⟨c, rest, front, isFirst, later⟩ := run_one start
  have goesOn : ∃ next', (one (.among [second])).run anyCase
      ⟨some c, rest, place.pos + 1, place.captured⟩ next' = some found := by
    cases more with
    | nil => exact ⟨_, later⟩
    | cons third more =>
      exact ⟨fun middle => (literal (third :: more)).run anyCase middle next, later⟩
  obtain ⟨next', secondRun⟩ := goesOn
  obtain ⟨d, behind, secondFront, isSecond, -⟩ := run_one secondRun
  exact ⟨c, d, behind, by rw [front]; exact congrArg (c :: ·) secondFront, isFirst, isSecond⟩

/-- With regard to case, a listed character stands for itself only. -/
theorem has_among {c d : Char} (listed : (CharSet.among [c]).has false d = true) : d = c := by
  have same : c = d := by
    simpa [CharSet.has] using listed
  exact same.symm

/-- There is no group in a literal text. -/
theorem hasGroup_literal (text : Text) : (literal text).hasGroup = false := by
  fun_induction literal text with
  | case1 => rfl
  | case2 c => rfl
  | case3 c text _ inductionHypothesis => exact inductionHypothesis

/-- A literal text that may have one character in front of it, which a group takes, stands right
behind what the group took, at the place of the match. -/
theorem matchAt_led {set : CharSet} {first second : Char} {more : Text} {tail : Regex}
    {place found : Cursor}
    (matched : (seq (group (alt textStart (one set)))
      (seq (literal (first :: second :: more)) tail)).matchAt false place = some found) :
    ∃ lead rest, place.rest = lead ++ first :: second :: rest ∧
      (tail.hasGroup = false → found.captured = some lead) := by
  have behind {place found : Cursor} (matched : (seq (literal (first :: second :: more)) tail).run
      false place some = some found) :
      (∃ rest, place.rest = first :: second :: rest) ∧
        (tail.hasGroup = false → found.captured = place.captured) := by
    refine ⟨?_, fun noGroup => ?_⟩
    · obtain ⟨c, d, rest, front, isFirst, isSecond⟩ := run_literal matched
      rw [has_among isFirst, has_among isSecond] at front
      exact ⟨rest, front⟩
    · have inBoth : (seq (literal (first :: second :: more)) tail).hasGroup = false :=
        Bool.or_eq_false_iff.mpr ⟨hasGroup_literal _, noGroup⟩
      obtain ⟨after, kept, same⟩ := keeps_captured inBoth false _ _ _ matched
      cases same
      exact kept
  simp only [matchAt, run] at matched
  split at matched
  · rename_i atStart
    split at atStart
    · cases matched
      obtain ⟨⟨rest, front⟩, kept⟩ := behind atStart
      refine ⟨[], rest, front, fun noGroup => ?_⟩
      rw [kept noGroup, Nat.sub_self]
      rfl
    · cases atStart
  · split at matched
    · cases matched
    · rename_i c later front
      split at matched
      · obtain ⟨⟨rest, split⟩, kept⟩ := behind matched
        have text : place.rest = [c] ++ first :: second :: rest := by
          rw [front]
          exact congrArg (c :: ·) split
        refine ⟨[c], rest, text, fun noGroup => ?_⟩
        have one : place.pos + 1 - place.pos = 1 := by omega
        rw [kept noGroup, text, one]
        rfl
      · cases matched

/-- An expression that starts at the start of the text is not found behind it. -/
theorem searchFrom_anchored {anyCase : Bool} {tail : Regex} (before : Char) (pos : Nat)
    (text : Text) : (seq textStart tail).searchFrom anyCase (some before) pos text = none := by
  have missed (before : Char) (pos : Nat) (text : Text) :
      (seq textStart tail).matchAt anyCase ⟨some before, text, pos, none⟩ = none := rfl
  induction text generalizing before pos with
  | nil =>
    unfold searchFrom
    rw [missed]
  | cons c rest inductionHypothesis =>
    unfold searchFrom
    rw [missed]
    exact inductionHypothesis c (pos + 1)

section

variable {round : Cursor → Continuation → Option Cursor} {place middle found : Cursor} {fuel : Text}
  {next : Continuation}

/-- A repetition ends where there is no further round. -/
theorem repeatMost_stops (stops : ∀ next, round place next = none) :
    repeatMost round fuel place next = next place := by
  cases fuel with
  | nil => rfl
  | cons c fuel => rw [repeatMost, stops]

/-- A repetition goes on behind a round, if there is only one way through the round. -/
theorem repeatMost_goes (goes : ∀ next, round place next = next middle)
    (moved : place.pos < middle.pos) (rest : repeatMost round fuel middle next = some found)
    (c : Char) : repeatMost round (c :: fuel) place next = some found := by
  rw [repeatMost, goes]
  simp only [moved, if_true, rest]

end

/-- As many characters of a set as there are, taken one by one. -/
theorem repeatMost_one {anyCase : Bool} {set : CharSet} {front follow : Text}
    (members : ∀ c ∈ front, set.has anyCase c = true)
    (stops : ∀ c ∈ follow.head?, set.has anyCase c = false) {fuel : Text} {place : Cursor}
    (split : place.rest = front ++ follow) (enough : front.length ≤ fuel.length) :
    ∃ before, repeatMost ((one set).run anyCase) fuel place some =
      some ⟨before, follow, place.pos + front.length, place.captured⟩ := by
  induction front generalizing fuel place with
  | nil =>
    have ends : ∀ c ∈ place.rest.head?, set.has anyCase c = false := by
      rw [split]
      exact stops
    refine ⟨place.before, ?_⟩
    rw [repeatMost_stops (run_one_none ends)]
    cases place
    cases split
    rfl
  | cons c front inductionHypothesis =>
    cases fuel with
    | nil => cases enough
    | cons d fuel =>
      have later : ∃ before, repeatMost ((one set).run anyCase) fuel
          ⟨some c, front ++ follow, place.pos + 1, place.captured⟩ some =
            some ⟨before, follow, place.pos + 1 + front.length, place.captured⟩ :=
        inductionHypothesis (fun other member => members other (List.mem_cons_of_mem c member)) rfl
          (Nat.le_of_succ_le_succ enough)
      obtain ⟨before, rest⟩ := later
      have here : set.has anyCase c = true := members c List.mem_cons_self
      have counted : place.pos + 1 + front.length = place.pos + (c :: front).length := by
        simp only [List.length_cons]
        omega
      rw [counted] at rest
      exact ⟨before, repeatMost_goes (run_one_cons split here) (Nat.lt_succ_self _) rest d⟩

end Regex

end TemplHighlight
