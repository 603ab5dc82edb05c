import TemplHighlight.Grammar.RuleSet
import TemplHighlight.Proofs.Outcome

/-!
# Patterns that answer

A search can fail only where a scanner is led by something that is no scanner, or where a rule asks
for the group of a pattern without one. Both can be seen from the pattern. The match of a scanner
starts with its trigger, which tells it from the text around it.
-/

namespace TemplHighlight

namespace Pattern

/-- Whether the pattern can be asked what follows a match. -/
def scans : Pattern → Bool
  | braces _ | spread _ | tag _ => true
  | lead _ _ inner => inner.scans
  | regex .. | custom _ => false

/-- Whether the pattern is a regular expression or can be asked what follows a match. -/
def searches : Pattern → Bool
  | regex .. => true
  | pattern => pattern.scans

/-- Whether the pattern is a regular expression with a group. -/
def hasGroup : Pattern → Bool
  | regex shape .. => shape.hasGroup
  | _ => false

/-- A pattern that scans always says what follows a match, or that there is none. -/
theorem after?_total {pattern : Pattern} (scans : pattern.scans = true) (text : Text) :
    ∃ rest?, pattern.after? text = .ok rest? := by
  induction pattern generalizing text with
  | braces | spread | tag => exact ⟨_, rfl⟩
  | lead c more inner inductionHypothesis =>
    unfold after?
    split
    · exact inductionHypothesis scans _
    · exact ⟨none, rfl⟩
  | regex | custom => cases scans

/-- Where the trigger stands the scanner is asked, and elsewhere, or if it declines, the search goes
on one character further. -/
theorem scanFrom_cons (pattern : Pattern) (trigger : Char) (pos : Nat) (c : Char) (rest : Text) :
    pattern.scanFrom trigger pos (c :: rest) =
      if c = trigger then
        match pattern.after? (c :: rest) with
        | .ok (some behind) => .ok (some ⟨pos, pos + ((c :: rest).length - behind.length), none⟩)
        | .ok none => pattern.scanFrom trigger (pos + 1) rest
        | .error error => .error error
      else pattern.scanFrom trigger (pos + 1) rest := by
  rw [scanFrom]
  split
  · cases pattern.after? (c :: rest) with
    | error error => rfl
    | ok behind? => cases behind? <;> rfl
  · rfl

/-- A pattern that scans can be searched for in every text. -/
theorem scanFrom_total {pattern : Pattern} (scans : pattern.scans = true) (trigger : Char)
    (pos : Nat) (text : Text) : ∃ found?, pattern.scanFrom trigger pos text = .ok found? := by
  induction text generalizing pos with
  | nil => exact ⟨none, rfl⟩
  | cons c rest inductionHypothesis =>
    rw [scanFrom_cons]
    split
    · obtain ⟨behind?, answered⟩ := after?_total scans (c :: rest)
      rw [answered]
      cases behind? with
      | none => exact inductionHypothesis (pos + 1)
      | some behind => exact ⟨_, rfl⟩
    · exact inductionHypothesis (pos + 1)

/-- Every pattern that scans has a trigger. -/
theorem trigger_of_scans {pattern : Pattern} (scans : pattern.scans = true) :
    ∃ trigger, pattern.trigger? = some trigger := by
  cases pattern with
  | braces | spread | tag | lead => exact ⟨_, rfl⟩
  | regex | custom => cases scans

/-- A pattern with a trigger is searched for from trigger to trigger, from any place on. -/
theorem searchFrom_of_trigger {pattern : Pattern} {trigger : Char}
    (triggered : pattern.trigger? = some trigger) (text : Text) (pos : Nat) :
    pattern.searchFrom text pos = pattern.scanFrom trigger pos (text.drop pos) := by
  cases pattern with
  | regex | custom => cases triggered
  | braces | spread | tag | lead =>
    cases triggered
    rfl

/-- A pattern that scans can be searched for from every place of every text. -/
theorem searchFrom_total {pattern : Pattern} (scans : pattern.scans = true) (text : Text)
    (pos : Nat) : ∃ found?, pattern.searchFrom text pos = .ok found? := by
  obtain ⟨trigger, triggered⟩ := trigger_of_scans scans
  rw [searchFrom_of_trigger triggered]
  exact scanFrom_total scans trigger pos _

/-- Such a pattern can be searched for in every text. -/
theorem search_total {pattern : Pattern} (searches : pattern.searches = true) (text : Text) :
    ∃ found?, pattern.search text = .ok found? := by
  cases pattern with
  | regex => exact ⟨_, rfl⟩
  | custom => cases searches
  | braces | spread | tag | lead => exact searchFrom_total searches text 0

/-- A match of a pattern with a group says what the group took. -/
theorem groupOf_total {pattern : Pattern} (grouped : pattern.hasGroup = true) {text : Text}
    {found : Found} (searched : pattern.search text = .ok (some found)) :
    ∃ group, pattern.groupOf found.group = .ok group := by
  cases pattern with
  | regex shape anyCase written =>
    obtain ⟨⟨start, after⟩, -, rfl⟩ := Option.map_eq_some_iff.mp (Except.ok.inj searched)
    refine ⟨after.captured, ?_⟩
    have shapeGrouped : shape.hasGroup = true := grouped
    simp only [foundAt, shapeGrouped, if_true, groupOf]
  | custom | braces | spread | tag | lead => cases grouped

/-- What a scan finds starts with the trigger somewhere in the text, and reaches as far as the scanner
says. -/
theorem scanFrom_found {pattern : Pattern} {trigger : Char} {pos : Nat} {text : Text}
    {found : Found} (scanned : pattern.scanFrom trigger pos text = .ok (some found)) :
    ∃ front rest behind, text = front ++ trigger :: rest ∧
      pattern.after? (trigger :: rest) = .ok (some behind) ∧
      found = ⟨pos + front.length,
        pos + front.length + ((trigger :: rest).length - behind.length), none⟩ := by
  induction text generalizing pos with
  | nil => cases scanned
  | cons c later inductionHypothesis =>
    have goesOn (scanned : pattern.scanFrom trigger (pos + 1) later = .ok (some found)) :
        ∃ front rest behind, c :: later = front ++ trigger :: rest ∧
          pattern.after? (trigger :: rest) = .ok (some behind) ∧
          found = ⟨pos + front.length,
            pos + front.length + ((trigger :: rest).length - behind.length), none⟩ := by
      obtain ⟨front, rest, behind, rfl, matched, same⟩ := inductionHypothesis scanned
      have counted : pos + 1 + front.length = pos + (c :: front).length := by
        rw [List.length_cons]
        omega
      rw [counted] at same
      exact ⟨c :: front, rest, behind, rfl, matched, same⟩
    rw [scanFrom_cons] at scanned
    split at scanned
    · rename_i isTrigger
      subst isTrigger
      split at scanned
      · rename_i behind matched
        cases scanned
        exact ⟨[], later, behind, rfl, matched, rfl⟩
      · exact goesOn scanned
      · cases scanned
    · exact goesOn scanned

/-- What a scanner finds in a text starts with its trigger. -/
theorem search_head {pattern : Pattern} {trigger : Char}
    (triggered : pattern.trigger? = some trigger) {text : Text} {found : Found}
    (searched : pattern.search text = .ok (some found)) :
    (text.drop found.start).head? = some trigger := by
  rw [search, searchFrom_of_trigger triggered, List.drop_zero] at searched
  obtain ⟨front, rest, behind, rfl, -, rfl⟩ := scanFrom_found searched
  simp

end Pattern

/-- Whether a rule can be used under a name: its pattern answers, with the group that the rule asks
for, and the tokens have a kind. -/
def Rule.usable (name : String) (rule : Rule) : Bool :=
  rule.pattern.searches && (!rule.lookbehind || rule.pattern.hasGroup) &&
    (rule.kindFor? name).isSome

/-- What a rule that can be used asks for as its group is there. -/
theorem Rule.grouped_of_usable {name : String} {rule : Rule} (usable : rule.usable name = true)
    (lookbehind : rule.lookbehind = true) : rule.pattern.hasGroup = true := by
  simp only [Rule.usable, Bool.and_eq_true, Bool.or_eq_true, Bool.not_eq_true'] at usable
  rcases usable.1.2 with plain | grouped
  · rw [lookbehind] at plain
    cases plain
  · exact grouped

/-- A rule that can be used finds its next match in every text, or that there is none. -/
theorem Rule.find_total {name : String} {rule : Rule} (usable : rule.usable name = true)
    (text : Text) : ∃ bounds?, rule.find text = .ok bounds? := by
  have searches : rule.pattern.searches = true := by
    simp only [Rule.usable, Bool.and_eq_true] at usable
    exact usable.1.1
  obtain ⟨found?, searched⟩ := Pattern.search_total searches text
  refine Outcome.bind_total ⟨found?, searched, ?_⟩
  cases found? with
  | none => exact ⟨none, rfl⟩
  | some found =>
    simp only
    split
    · rename_i lookbehind
      have grouped := Rule.grouped_of_usable usable lookbehind
      obtain ⟨group, taken⟩ := Pattern.groupOf_total grouped searched
      exact Outcome.bind_total ⟨group, taken, _, rfl⟩
    · exact ⟨_, rfl⟩

/-- A rule answers under a name: its tokens have a kind, the group that stands before them is there
to be read, and a search with it has an answer in every text. -/
structure Rule.Answers (name : String) (rule : Rule) : Prop where
  named : ∃ kind, rule.kindFor? name = some kind
  grouped : rule.lookbehind = true → rule.pattern.hasGroup = true
  reads : rule.lookbehind = true → ∀ text found, rule.pattern.search text = .ok (some found) →
    ∃ group, rule.pattern.groupOf found.group = .ok group
  finds : ∀ text, ∃ bounds?, rule.find text = .ok bounds?

/-- A rule that can be used answers. -/
theorem Rule.answers_of_usable {name : String} {rule : Rule} (usable : rule.usable name = true) :
    rule.Answers name := by
  have grouped := Rule.grouped_of_usable usable
  constructor
  case named => exact Option.isSome_iff_exists.mp (Bool.and_eq_true_iff.mp usable).2
  case grouped => exact grouped
  case reads =>
    intro lookbehind text found searched
    exact Pattern.groupOf_total (grouped lookbehind) searched
  case finds => exact rule.find_total usable

end TemplHighlight
