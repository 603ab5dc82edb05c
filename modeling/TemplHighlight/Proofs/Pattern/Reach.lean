import TemplHighlight.Proofs.Pattern.Answers

/-!
# Where a match lies

Matching moves through a text from left to right: from one place to another that is reached by
passing characters. From this it follows that the match of a regular expression starts and stops
inside the text that was searched, and so does the match of a scanner. A pattern with a search of
its own is asked to keep to the text; that is all that is assumed of it.
-/

namespace TemplHighlight

namespace Cursor

/-- A place lies at or behind another one of the same text, as many characters on as were passed. -/
def Reaches (place later : Cursor) : Prop :=
  ∃ passed, place.rest = passed ++ later.rest ∧ later.pos = place.pos + passed.length

/-- A place lies at itself, whatever the group has taken. -/
theorem Reaches.same {place later : Cursor} (rest : later.rest = place.rest)
    (pos : later.pos = place.pos) : place.Reaches later :=
  ⟨[], by simp [rest], by simp [pos]⟩

/-- A place lies at itself. -/
theorem Reaches.refl (place : Cursor) : place.Reaches place := .same rfl rfl

/-- Passing characters twice is passing characters. -/
theorem Reaches.trans {first second third : Cursor} (front : first.Reaches second)
    (back : second.Reaches third) : first.Reaches third := by
  obtain ⟨passed, split, counted⟩ := front
  obtain ⟨more, moreSplit, moreCounted⟩ := back
  exact ⟨passed ++ more, by rw [split, moreSplit, List.append_assoc],
    by rw [moreCounted, counted, List.length_append, Nat.add_assoc]⟩

/-- The place a number of characters on is reached. -/
theorem reaches_advance (count : Nat) (place : Cursor) : place.Reaches (place.advance count) := by
  induction count generalizing place with
  | zero => exact .same rfl rfl
  | succ count inductionHypothesis =>
    unfold advance
    split
    · exact .same rfl rfl
    · rename_i c rest front
      refine Reaches.trans ⟨[c], ?_, rfl⟩ (inductionHypothesis _)
      simpa using front

/-- Going on leaves what the group has taken. -/
theorem captured_advance (count : Nat) (place : Cursor) :
    (place.advance count).captured = place.captured := by
  induction count generalizing place with
  | zero => rfl
  | succ count inductionHypothesis =>
    unfold advance
    split
    · rfl
    · exact inductionHypothesis _

end Cursor

namespace Regex

/-- Every way to match leads from the place to a related one, and goes on there. -/
def Moves (related : Cursor → Cursor → Prop) (round : Cursor → Continuation → Option Cursor) :
    Prop :=
  ∀ place next found, round place next = some found →
    ∃ after, related place after ∧ next after = some found

variable {related : Cursor → Cursor → Prop}

/-- Rounds that lead to related places are repeated to a related place. -/
theorem moves_repeatMost (refl : ∀ place, related place place)
    (trans : ∀ {first second third}, related first second → related second third →
      related first third)
    {round : Cursor → Continuation → Option Cursor} (moves : Moves related round) (fuel : Text) :
    Moves related (repeatMost round fuel) := by
  induction fuel with
  | nil =>
    intro place next found matched
    exact ⟨place, refl place, matched⟩
  | cons c fuel inductionHypothesis =>
    intro place next found matched
    unfold repeatMost at matched
    split at matched
    · rename_i result repeated
      cases matched
      obtain ⟨middle, reached, goesOn⟩ := moves _ _ _ repeated
      split at goesOn
      · obtain ⟨after, reachedLater, rest⟩ := inductionHypothesis _ _ _ goesOn
        exact ⟨after, trans reached reachedLater, rest⟩
      · cases goesOn
    · exact ⟨place, refl place, matched⟩

/-- Rounds that lead to related places are repeated to a related place, also when few are
preferred. -/
theorem moves_repeatLeast (refl : ∀ place, related place place)
    (trans : ∀ {first second third}, related first second → related second third →
      related first third)
    {round : Cursor → Continuation → Option Cursor} (moves : Moves related round) (fuel : Text) :
    Moves related (repeatLeast round fuel) := by
  induction fuel with
  | nil =>
    intro place next found matched
    exact ⟨place, refl place, matched⟩
  | cons c fuel inductionHypothesis =>
    intro place next found matched
    unfold repeatLeast at matched
    split at matched
    · rename_i result ended
      cases matched
      exact ⟨place, refl place, ended⟩
    · obtain ⟨middle, reached, goesOn⟩ := moves _ _ _ matched
      split at goesOn
      · obtain ⟨after, reachedLater, rest⟩ := inductionHypothesis _ _ _ goesOn
        exact ⟨after, trans reached reachedLater, rest⟩
      · cases goesOn

/-- One character of a set is matched where such a character stands. -/
theorem run_one {anyCase : Bool} {set : CharSet} {place found : Cursor} {next : Continuation}
    (matched : (one set).run anyCase place next = some found) :
    ∃ c rest, place.rest = c :: rest ∧ set.has anyCase c = true ∧
      next ⟨some c, rest, place.pos + 1, place.captured⟩ = some found := by
  unfold run at matched
  split at matched
  · cases matched
  · rename_i c rest front
    split at matched
    · exact ⟨c, rest, front, ‹_›, matched⟩
    · cases matched

/-- Whether the characters, groups and anchors that an expression is made of pass a test. -/
def everyPart (test : Regex → Bool) : Regex → Bool
  | seq a b | alt a b => a.everyPart test && b.everyPart test
  | most a | least a | ahead _ a => a.everyPart test
  | group a => test (group a) && a.everyPart test
  | part => test part

/-- Every way to match a regular expression leads to a related place, if that is so for the
characters and references that it is made of, and what the groups take makes no difference. -/
theorem moves_of_parts {anyCase : Bool} {test : Regex → Bool}
    (refl : ∀ place, related place place)
    (trans : ∀ {first second third}, related first second → related second third →
      related first third)
    (taken : ∀ set, test (one set) = true → Moves related ((one set).run anyCase))
    (repeated : test again = true → Moves related (again.run anyCase))
    (grouped : ∀ body, test (group body) = true → ∀ place after text, related place after →
      related place { after with captured := some text })
    (seen : ∀ place after, related place after →
      related place { place with captured := after.captured })
    {regex : Regex} (all : regex.everyPart test = true) : Moves related (regex.run anyCase) := by
  induction regex with
  | empty =>
    intro place next found matched
    exact ⟨place, refl place, matched⟩
  | one set => exact taken set all
  | seq first second firstMoves secondMoves =>
    obtain ⟨inFirst, inSecond⟩ := Bool.and_eq_true_iff.mp all
    intro place next found matched
    obtain ⟨middle, reached, goesOn⟩ := firstMoves inFirst _ _ _ matched
    obtain ⟨after, reachedLater, rest⟩ := secondMoves inSecond _ _ _ goesOn
    exact ⟨after, trans reached reachedLater, rest⟩
  | alt first second firstMoves secondMoves =>
    obtain ⟨inFirst, inSecond⟩ := Bool.and_eq_true_iff.mp all
    intro place next found matched
    unfold run at matched
    split at matched
    · rename_i result taken
      cases matched
      exact firstMoves inFirst _ _ _ taken
    · exact secondMoves inSecond _ _ _ matched
  | most body bodyMoves =>
    intro place next found matched
    exact moves_repeatMost refl trans (bodyMoves all) place.rest place next found matched
  | least body bodyMoves =>
    intro place next found matched
    exact moves_repeatLeast refl trans (bodyMoves all) place.rest place next found matched
  | ahead wanted body bodyMoves =>
    intro place next found matched
    unfold run at matched
    split at matched
    · rename_i after found
      obtain ⟨last, reached, same⟩ := bodyMoves all _ _ _ found
      cases same
      split at matched
      · exact ⟨{ place with captured := after.captured }, seen place after reached, matched⟩
      · cases matched
    · split at matched
      · cases matched
      · exact ⟨place, refl place, matched⟩
  | textStart | textEnd | boundary wanted =>
    intro place next found matched
    unfold run at matched
    split at matched
    · exact ⟨place, refl place, matched⟩
    · cases matched
  | group body bodyMoves =>
    obtain ⟨isGroup, inBody⟩ := Bool.and_eq_true_iff.mp all
    intro place next found matched
    obtain ⟨middle, reached, goesOn⟩ := bodyMoves inBody _ _ _ matched
    exact ⟨_, grouped body isGroup place middle _ reached, goesOn⟩
  | again => exact repeated all

/-- Every expression passes a test that asks nothing. -/
theorem everyPart_true (regex : Regex) : regex.everyPart (fun _ => true) = true := by
  induction regex <;> simp_all [everyPart]

/-- A reference leads to a place behind what the group has taken. -/
theorem moves_again {anyCase : Bool}
    (advanced : ∀ place count, related place (place.advance count)) :
    Moves related (again.run anyCase) := by
  intro place next found matched
  unfold run at matched
  split at matched
  · cases matched
  · rename_i text captured
    split at matched
    · exact ⟨_, advanced place text.length, matched⟩
    · cases matched

/-- Every way to match a regular expression leads to a place that is reached. -/
theorem moves_run (anyCase : Bool) (regex : Regex) :
    Moves Cursor.Reaches (regex.run anyCase) := by
  refine moves_of_parts .refl .trans ?_ ?_ ?_ ?_ (everyPart_true regex)
  · intro set _ place next found matched
    obtain ⟨c, rest, front, -, goesOn⟩ := run_one matched
    exact ⟨⟨some c, rest, place.pos + 1, place.captured⟩, ⟨[c], front, rfl⟩, goesOn⟩
  · exact fun _ => moves_again fun place count => Cursor.reaches_advance count place
  · exact fun _ _ _ _ _ reached => reached.trans (.same rfl rfl)
  · exact fun _ _ _ => .same rfl rfl

/-- A way to match leads to a place where the group has taken what it had taken before. -/
def SameGroup (place after : Cursor) : Prop := after.captured = place.captured

/-- Whether an expression is a group. -/
def isGroup : Regex → Bool
  | group _ => true
  | _ => false

/-- Without a group in it, an expression is made of parts that are no groups. -/
theorem everyPart_noGroup {regex : Regex} (noGroup : regex.hasGroup = false) :
    regex.everyPart (!isGroup ·) = true := by
  induction regex <;> simp_all [everyPart, hasGroup, isGroup]

/-- Without a group in the expression, the group takes nothing. -/
theorem keeps_captured {regex : Regex} (noGroup : regex.hasGroup = false) (anyCase : Bool) :
    Moves SameGroup (regex.run anyCase) := by
  have refl (place : Cursor) : SameGroup place place := rfl
  have trans {first second third : Cursor} (front : SameGroup first second)
      (back : SameGroup second third) : SameGroup first third := Eq.trans back front
  refine moves_of_parts refl trans ?_ ?_ ?_ ?_ (everyPart_noGroup noGroup)
  · intro set _ place next found matched
    obtain ⟨c, rest, -, -, goesOn⟩ := run_one matched
    exact ⟨⟨some c, rest, place.pos + 1, place.captured⟩, rfl, goesOn⟩
  · exact fun _ => moves_again fun place count => Cursor.captured_advance count place
  · intro body notGroup
    cases notGroup
  · exact fun _ _ same => same

/-- A match ends at a place of the text that it was tried on. -/
theorem matchAt_bounds {anyCase : Bool} {regex : Regex} {before : Option Char} {pos : Nat}
    {text : Text} {after : Cursor}
    (matched : regex.matchAt anyCase ⟨before, text, pos, none⟩ = some after) :
    pos ≤ after.pos ∧ after.pos + after.rest.length = pos + text.length := by
  obtain ⟨last, ⟨passed, split, counted⟩, same⟩ := moves_run anyCase regex _ _ _ matched
  cases same
  have lengths := congrArg List.length split
  simp only [List.length_append] at lengths counted
  omega

/-- A search finds a match between two places of the text that it goes through. -/
theorem searchFrom_bounds {anyCase : Bool} {regex : Regex} {before : Option Char} {pos start : Nat}
    {text : Text} {after : Cursor}
    (found : regex.searchFrom anyCase before pos text = some (start, after)) :
    pos ≤ start ∧ start ≤ after.pos ∧ after.pos + after.rest.length = pos + text.length := by
  induction text generalizing before pos with
  | nil =>
    unfold searchFrom at found
    split at found
    · rename_i place matched
      cases found
      exact ⟨Nat.le_refl _, matchAt_bounds matched⟩
    · cases found
  | cons c rest inductionHypothesis =>
    unfold searchFrom at found
    split at found
    · rename_i place matched
      cases found
      exact ⟨Nat.le_refl _, matchAt_bounds matched⟩
    · obtain ⟨behind, ordered, total⟩ := inductionHypothesis found
      simp only [List.length_cons]
      omega

/-- What a search finds is matched at the place where it starts. -/
theorem searchFrom_matched {anyCase : Bool} {regex : Regex} {before : Option Char} {pos start : Nat}
    {text : Text} {after : Cursor}
    (found : regex.searchFrom anyCase before pos text = some (start, after)) :
    ∃ last, regex.matchAt anyCase ⟨last, text.drop (start - pos), start, none⟩ = some after := by
  have here {text : Text} {place : Cursor}
      (matched : regex.matchAt anyCase ⟨before, text, pos, none⟩ = some place) :
      ∃ last, regex.matchAt anyCase ⟨last, text.drop (pos - pos), pos, none⟩ = some place := by
    rw [Nat.sub_self]
    exact ⟨before, matched⟩
  induction text generalizing before pos with
  | nil =>
    unfold searchFrom at found
    split at found
    · rename_i place matched
      cases found
      exact here matched
    · cases found
  | cons c rest inductionHypothesis =>
    unfold searchFrom at found
    split at found
    · rename_i place matched
      cases found
      exact here matched
    · have bounds := (searchFrom_bounds found).1
      obtain ⟨last, matched⟩ := inductionHypothesis found fun matched => by
        rw [Nat.sub_self]
        exact ⟨_, matched⟩
      have step : start - pos = start - (pos + 1) + 1 := by omega
      rw [step, List.drop_succ_cons]
      exact ⟨last, matched⟩

end Regex

namespace Pattern

/-- The matches of a pattern with a search of its own stop inside the text that was searched. The
other patterns are not asked anything. -/
def KeepsToText : Pattern → Prop
  | custom search => ∀ text found, search text = some found → found.stop ≤ text.length
  | _ => True

/-- Every pattern that keeps to the text finds matches that stop inside it. -/
theorem search_bounds {pattern : Pattern} (keeps : pattern.KeepsToText) {text : Text}
    {found : Found} (searched : pattern.search text = .ok (some found)) :
    found.stop ≤ text.length := by
  have scanned {trigger : Char}
      (run : pattern.scanFrom trigger 0 (text.drop 0) = .ok (some found)) :
      found.stop ≤ text.length := by
    rw [List.drop_zero] at run
    obtain ⟨front, rest, behind, rfl, -, rfl⟩ := scanFrom_found run
    simp only [Nat.zero_add, List.length_append]
    omega
  cases pattern with
  | regex shape anyCase written =>
    obtain ⟨⟨start, after⟩, matched, rfl⟩ :=
      Option.map_eq_some_iff.mp (Except.ok.inj searched)
    have bounds := Regex.searchFrom_bounds matched
    simp only [Cursor.start, Cursor.advance] at bounds
    simp only [foundAt]
    omega
  | custom search =>
    obtain ⟨inner, matched, rfl⟩ := Option.map_eq_some_iff.mp (Except.ok.inj searched)
    exact keeps text inner matched
  | braces | spread | tag | lead => exact scanned searched

end Pattern

end TemplHighlight
