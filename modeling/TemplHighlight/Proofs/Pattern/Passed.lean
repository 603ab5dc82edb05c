import TemplHighlight.Proofs.Pattern.Answers
import TemplHighlight.Proofs.Pattern.Start
import TemplHighlight.Proofs.Text.Classes
import TemplHighlight.Regex.Words

/-!
# The characters of a match

Two things about the characters of a match can be read off a regular expression: that certain
characters are never among them, since no set in the expression holds one, and that one of certain
characters is always among them, since there is no way through the expression around such a
character. What a single set finds is the first of its characters.
-/

namespace TemplHighlight

namespace Regex

variable {anyCase : Bool} {chars : Text}

/-! ## Characters that are never taken -/

/-- A way to match takes none of certain characters. -/
def Avoids (chars : Text) (place after : Cursor) : Prop :=
  ∃ passed, place.rest = passed ++ after.rest ∧ after.pos = place.pos + passed.length ∧
    ∀ c ∈ passed, c ∉ chars

/-- Whether a part of an expression cannot take any of certain characters. A reference might. -/
def takesNone (anyCase : Bool) (chars : Text) : Regex → Bool
  | one set => chars.all fun c => !set.has anyCase c
  | again => false
  | _ => true

/-- Whether none of certain characters can be taken by an expression. -/
def avoids (anyCase : Bool) (chars : Text) (regex : Regex) : Bool :=
  regex.everyPart (takesNone anyCase chars)

/-- An expression whose sets hold none of certain characters takes none of them. -/
theorem moves_avoids {regex : Regex} (avoids : regex.avoids anyCase chars = true) :
    Moves (Avoids chars) (regex.run anyCase) := by
  have same {place after : Cursor} (rest : after.rest = place.rest) (pos : after.pos = place.pos) :
      Avoids chars place after := ⟨[], by simp [rest], by simp [pos], nofun⟩
  refine moves_of_parts (fun _ => same rfl rfl) ?trans ?taken ?repeated ?grouped
    (fun _ _ _ => same rfl rfl) avoids
  case trans =>
    rintro first second third ⟨passed, split, counted, others⟩ ⟨more, moreSplit, moreCounted, rest⟩
    refine ⟨passed ++ more, by rw [split, moreSplit, List.append_assoc], ?_, ?_⟩
    · rw [moreCounted, counted, List.length_append, Nat.add_assoc]
    · exact List.forall_mem_append.mpr ⟨others, rest⟩
  case taken =>
    intro set none place next found matched
    obtain ⟨c, rest, front, member, goesOn⟩ := run_one matched
    refine ⟨⟨some c, rest, place.pos + 1, place.captured⟩, ⟨[c], front, rfl, ?_⟩, goesOn⟩
    intro d isTaken listed
    rw [List.mem_singleton.mp isTaken] at listed
    have outside := List.all_eq_true.mp none c listed
    rw [member] at outside
    cases outside
  case repeated =>
    intro taken
    cases taken
  case grouped => exact fun _ _ _ _ _ passed => passed

/-- The characters of a match are none of those that the expression avoids. -/
theorem matchAt_avoids {regex : Regex} (avoids : regex.avoids anyCase chars = true)
    {before : Option Char} {pos : Nat} {text : Text} {after : Cursor}
    (matched : regex.matchAt anyCase ⟨before, text, pos, none⟩ = some after) :
    ∀ c ∈ text.take (after.pos - pos), c ∉ chars := by
  obtain ⟨last, ⟨passed, split, counted, others⟩, same⟩ := moves_avoids avoids _ _ _ matched
  cases same
  have front : text = passed ++ after.rest := split
  have length : after.pos - pos = passed.length := by
    simp only at counted
    omega
  rw [front, length, List.take_left]
  exact others

/-- A literal text takes its own characters. -/
theorem avoids_literal {text : Text} (others : ∀ c ∈ text, c ∉ chars) :
    (literal text).avoids false chars = true := by
  have single {c : Char} (other : c ∉ chars) :
      (one (.among [c])).avoids false chars = true := by
    refine List.all_eq_true.mpr fun d listed => ?_
    have apart : c ≠ d := by
      rintro rfl
      exact other listed
    simp [CharSet.has, apart]
  fun_induction literal text with
  | case1 => rfl
  | case2 c => exact single (others c List.mem_cons_self)
  | case3 c text notLast inductionHypothesis =>
    obtain ⟨first, rest⟩ := List.forall_mem_cons.mp others
    exact Bool.and_eq_true_iff.mpr ⟨single first, inductionHypothesis rest⟩

/-- A choice takes the characters of its parts. -/
theorem avoids_choice {parts : List Regex}
    (each : ∀ part ∈ parts, part.avoids anyCase chars = true) :
    (choice parts).avoids anyCase chars = true := by
  fun_induction choice parts with
  | case1 => rfl
  | case2 last => exact each last List.mem_cons_self
  | case3 first more notLast inductionHypothesis =>
    obtain ⟨here, rest⟩ := List.forall_mem_cons.mp each
    exact Bool.and_eq_true_iff.mpr ⟨here, inductionHypothesis rest⟩

/-- Whole words take the characters of the words. -/
theorem avoids_wholeWord {words : List Text} (others : ∀ word ∈ words, ∀ c ∈ word, c ∉ chars) :
    (wholeWord words).avoids false chars = true := by
  have each : ∀ part ∈ (Text.orderedWords words).map literal, part.avoids false chars = true := by
    intro part member
    obtain ⟨word, listed, rfl⟩ := List.mem_map.mp member
    have isWord : word ∈ words := by
      rw [Text.orderedWords, List.mem_mergeSort] at listed
      exact List.mem_eraseDups.mp listed
    exact avoids_literal (others word isWord)
  have inside := avoids_choice each
  simp only [avoids] at inside ⊢
  simp [wholeWord, sequence, everyPart, takesNone, inside]

/-! ## Characters that are always taken -/

/-- Whether a match always takes one of certain characters. -/
def needs (chars : Text) : Regex → Bool
  | one (.among listed) => listed.all chars.contains
  | seq a b => a.needs chars || b.needs chars
  | alt a b => a.needs chars && b.needs chars
  | group a => a.needs chars
  | _ => false

/-- A match does not confuse certain characters with others: it is with regard to case, or none of
them is a letter. -/
def Distinct (anyCase : Bool) (chars : Text) : Prop :=
  anyCase = false ∨ ∀ c ∈ chars, 0 < c.toNat ∧ c.toNat < 65

/-- A character that stands for one of such characters is that character. -/
theorem mem_of_has {listed : Text} (distinct : Distinct anyCase chars)
    (inside : ∀ d ∈ listed, d ∈ chars) {c : Char}
    (member : (CharSet.among listed).has anyCase c = true) : c ∈ chars := by
  simp only [CharSet.has, List.any_eq_true, Bool.or_eq_true, beq_iff_eq, Bool.and_eq_true] at member
  obtain ⟨d, isListed, same | ⟨caseless, same⟩⟩ := member
  · exact same ▸ inside d isListed
  · rcases distinct with regard | notLetters
    · rw [caseless] at regard
      cases regard
    · rw [CharClass.mark_of_sameLetter (notLetters d (inside d isListed)) same]
      exact inside d isListed

/-- Where a match takes one of certain characters, there is one. -/
theorem needs_run {regex : Regex} (distinct : Distinct anyCase chars)
    (needed : regex.needs chars = true) {place found : Cursor} {next : Continuation}
    (matched : regex.run anyCase place next = some found) : ∃ c ∈ place.rest, c ∈ chars := by
  induction regex generalizing place next with
  | one set =>
    obtain ⟨c, rest, front, member, -⟩ := run_one matched
    cases set with
    | among listed =>
      refine ⟨c, front ▸ List.mem_cons_self, mem_of_has distinct ?_ member⟩
      exact fun d isListed => List.contains_iff_mem.mp (List.all_eq_true.mp needed d isListed)
    | _ => cases needed
  | seq first second firstNeeds secondNeeds =>
    rcases Bool.or_eq_true_iff.mp needed with inFirst | inSecond
    · exact firstNeeds inFirst matched
    · obtain ⟨middle, ⟨passed, split, -⟩, goesOn⟩ := moves_run anyCase first _ _ _ matched
      obtain ⟨c, member, listed⟩ := secondNeeds inSecond goesOn
      exact ⟨c, split ▸ List.mem_append_right passed member, listed⟩
  | alt first second firstNeeds secondNeeds =>
    obtain ⟨inFirst, inSecond⟩ := Bool.and_eq_true_iff.mp needed
    unfold run at matched
    split at matched
    · rename_i result taken
      cases matched
      exact firstNeeds inFirst taken
    · exact secondNeeds inSecond matched
  | group body bodyNeeds => exact bodyNeeds needed matched
  | _ => cases needed

end Regex

/-! ## What a search finds -/

namespace Pattern

variable {shape : Regex} {anyCase : Bool} {chars written text : Text} {found : Found}

/-- What is found has none of the characters that the expression avoids. -/
theorem search_avoids (avoids : shape.avoids anyCase chars = true)
    (searched : (regex shape anyCase written).search text = .ok (some found)) :
    ∀ c ∈ (text.take found.stop).drop found.start, c ∉ chars := by
  obtain ⟨⟨start, after⟩, matched, rfl⟩ := Option.map_eq_some_iff.mp (Except.ok.inj searched)
  obtain ⟨last, matched⟩ := Regex.searchFrom_matched matched
  have others := Regex.matchAt_avoids avoids matched
  have split : (text.take after.pos).drop start = (text.drop start).take (after.pos - start) :=
    List.drop_take
  show ∀ c ∈ (text.take after.pos).drop start, c ∉ chars
  rw [split]
  exact others

/-- Nothing is found in a text without the characters that the expression needs. -/
theorem search_needs (distinct : Regex.Distinct anyCase chars) (needed : shape.needs chars = true)
    (none : ∀ c ∈ text, c ∉ chars) :
    (regex shape anyCase written).search text = .ok Option.none := by
  have nothing : shape.searchFrom anyCase Option.none 0 text = Option.none := by
    cases matched : shape.searchFrom anyCase Option.none 0 text with
    | none => rfl
    | some place =>
      obtain ⟨last, matched⟩ := Regex.searchFrom_matched matched
      obtain ⟨c, member, listed⟩ := Regex.needs_run distinct needed matched
      exact absurd listed (none c (List.mem_of_mem_drop member))
  show Except.ok ((shape.searchFrom anyCase Option.none 0 text).map _) = _
  rw [nothing]
  rfl

/-- Whether a pattern has no match without one of certain characters. -/
def needs (chars : Text) : Pattern → Bool
  | regex shape anyCase _ =>
    shape.needs chars && (!anyCase || chars.all fun c => decide (0 < c.toNat ∧ c.toNat < 65))
  | custom _ => false
  | scanner => scanner.trigger?.any chars.contains

/-- A pattern that needs one of certain characters finds nothing in a text without them. -/
theorem search_of_needs {pattern : Pattern} (searches : pattern.searches = true)
    (needed : pattern.needs chars = true) (none : ∀ c ∈ text, c ∉ chars) :
    pattern.search text = .ok Option.none := by
  have scanned (triggered : pattern.trigger?.any chars.contains = true) :
      pattern.search text = .ok Option.none := by
    obtain ⟨found?, searched⟩ := search_total searches text
    cases found? with
    | none => exact searched
    | some found =>
      cases isTrigger : pattern.trigger? with
      | none =>
        rw [isTrigger] at triggered
        cases triggered
      | some trigger =>
        rw [isTrigger] at triggered
        have member := List.mem_of_mem_drop (List.mem_of_head? (search_head isTrigger searched))
        exact absurd (List.contains_iff_mem.mp triggered) (none trigger member)
  cases pattern with
  | regex shape anyCase written =>
    simp only [needs, Bool.and_eq_true, Bool.or_eq_true, Bool.not_eq_true', List.all_eq_true,
      decide_eq_true_eq] at needed
    exact search_needs needed.2 needed.1 none
  | custom => cases needed
  | braces | spread | tag | lead => exact scanned needed

end Pattern

/-- A search for a character of a set goes to the first one. -/
theorem Regex.searchFrom_one (set : CharSet) (anyCase : Bool) (before : Option Char) (pos : Nat)
    (text : Text) :
    ((one set).searchFrom anyCase before pos text = none ∧
      ∀ c ∈ text, set.has anyCase c = false) ∨
    ∃ front c rest after, text = front ++ c :: rest ∧
      (∀ d ∈ front, set.has anyCase d = false) ∧ set.has anyCase c = true ∧
      (one set).searchFrom anyCase before pos text = some (pos + front.length, after) ∧
      after.pos = pos + front.length + 1 := by
  induction text generalizing before pos with
  | nil =>
    left
    unfold searchFrom
    exact ⟨rfl, List.forall_mem_nil _⟩
  | cons c rest inductionHypothesis =>
    unfold searchFrom
    cases member : set.has anyCase c with
    | true =>
      right
      refine ⟨[], c, rest, ⟨some c, rest, pos + 1, none⟩, rfl, List.forall_mem_nil _, member, ?_, rfl⟩
      rw [matchAt, run_one_cons rfl member]
      rfl
    | false =>
      have missed : (one set).matchAt anyCase ⟨before, c :: rest, pos, none⟩ = none := by
        refine run_one_none ?_ _
        rintro _ ⟨⟩
        exact member
      rw [missed]
      rcases inductionHypothesis (some c) (pos + 1) with
        ⟨nothing, others⟩ | ⟨front, d, later, after, rfl, others, isMember, found, stop⟩
      · exact .inl ⟨nothing, List.forall_mem_cons.mpr ⟨member, others⟩⟩
      · have counted : pos + 1 + front.length = pos + (c :: front).length := by
          rw [List.length_cons]
          omega
        rw [counted] at found stop
        exact .inr ⟨c :: front, d, later, after, rfl, List.forall_mem_cons.mpr ⟨member, others⟩,
          isMember, found, stop⟩

/-- So the first of them is what is found. -/
theorem Pattern.search_one (set : CharSet) (anyCase : Bool) (written text : Text) :
    ((regex (.one set) anyCase written).search text = .ok none ∧
      ∀ c ∈ text, set.has anyCase c = false) ∨
    ∃ front c rest found, text = front ++ c :: rest ∧ (∀ d ∈ front, set.has anyCase d = false) ∧
      set.has anyCase c = true ∧
      (regex (.one set) anyCase written).search text = .ok (some found) ∧
      found.start = front.length ∧ found.stop = front.length + 1 := by
  have searched (found? : Option (Nat × Cursor))
      (run : (Regex.one set).searchFrom anyCase none 0 text = found?) :
      (regex (.one set) anyCase written).search text =
        .ok (found?.map fun place => foundAt (.one set) place.1 place.2) := by
    rw [← run]
    rfl
  rcases Regex.searchFrom_one set anyCase none 0 text with
    ⟨nothing, others⟩ | ⟨front, c, rest, after, split, others, isMember, found, stops⟩
  · exact .inl ⟨searched none nothing, others⟩
  · rw [Nat.zero_add] at found stops
    exact .inr ⟨front, c, rest, foundAt (.one set) front.length after, split, others, isMember,
      searched _ found, rfl, stops⟩

end TemplHighlight
