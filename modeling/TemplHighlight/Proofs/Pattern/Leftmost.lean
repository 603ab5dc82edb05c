import TemplHighlight.Proofs.Pattern.Start

/-!
# The leftmost match

A search goes to the first place with a match. So it passes over a text in which no match starts,
and it finds a match that starts right behind such a text. Whether a match starts in a text depends
on what follows the text too, since a match may reach further; but for the patterns here it does not
depend on what stands in front.
-/

namespace TemplHighlight

/-- A text that ends two texts, one behind the other, ends the second or is the second with an end
of the first in front of it. -/
theorem suffix_append_cases {rest front back : Text} (ends : rest <:+ front ++ back) :
    rest <:+ back ∨ ∃ more, more <:+ front ∧ more ≠ [] ∧ rest = more ++ back := by
  obtain ⟨passed, split⟩ := ends
  rcases List.append_eq_append_iff.mp split with ⟨more, frontSplit, restSplit⟩ | ⟨more, -, backSplit⟩
  · cases more with
    | nil => exact .inl ⟨[], restSplit.symm ▸ rfl⟩
    | cons c later =>
      exact .inr ⟨c :: later, ⟨passed, frontSplit.symm⟩, List.cons_ne_nil c later, restSplit⟩
  · exact .inl ⟨more, backSplit.symm⟩

/-- Something holds of what stands from any place inside a text on, up to the end of what follows the
text. -/
def Throughout (holds : Text → Prop) (text follow : Text) : Prop :=
  ∀ rest, rest <:+ text → rest ≠ [] → holds (rest ++ follow)

/-- Nothing stands inside an empty text. -/
theorem throughout_nil (holds : Text → Prop) (follow : Text) : Throughout holds [] follow := by
  intro rest ends filled
  exact absurd (List.suffix_nil.mp ends) filled

/-- What holds throughout two texts, one behind the other, holds throughout both, where the second
follows the first. -/
theorem throughout_append {holds : Text → Prop} {front back follow : Text} :
    Throughout holds (front ++ back) follow ↔
      Throughout holds front (back ++ follow) ∧ Throughout holds back follow := by
  constructor
  · refine fun all => ⟨fun rest ends filled => ?_, fun rest ends => ?_⟩
    · obtain ⟨passed, rfl⟩ := ends
      rw [← List.append_assoc]
      refine all (rest ++ back) ⟨passed, (List.append_assoc ..).symm⟩ ?_
      exact fun empty => filled (List.append_eq_nil_iff.mp empty).1
    · exact all rest (ends.trans (List.suffix_append front back))
  · rintro ⟨inFront, inBack⟩ rest ends filled
    rcases suffix_append_cases ends with endsBack | ⟨more, endsFront, some, rfl⟩
    · exact inBack rest endsBack filled
    · rw [List.append_assoc]
      exact inFront more endsFront some

namespace Regex

/-- A search passes over a text in which no match starts. -/
theorem searchFrom_passes {shape : Regex} {anyCase : Bool} {front text : Text}
    (quiet : ∀ rest, rest <:+ front → rest ≠ [] →
      ∀ before pos, shape.matchAt anyCase ⟨before, rest ++ text, pos, none⟩ = none)
    (before : Option Char) (pos : Nat) :
    ∃ last, shape.searchFrom anyCase before pos (front ++ text) =
      shape.searchFrom anyCase last (pos + front.length) text := by
  induction front generalizing before pos with
  | nil => exact ⟨before, rfl⟩
  | cons c front inductionHypothesis =>
    have missed := quiet (c :: front) (List.suffix_refl _) (List.cons_ne_nil c front) before pos
    obtain ⟨last, later⟩ := inductionHypothesis
      (fun rest ends => quiet rest (ends.trans (List.suffix_cons c front))) (some c) (pos + 1)
    have counted : pos + (c :: front).length = pos + 1 + front.length := by
      rw [List.length_cons]
      omega
    refine ⟨last, ?_⟩
    rw [List.cons_append] at missed ⊢
    rw [searchFrom, missed, counted]
    exact later

end Regex

namespace Pattern

/-- A pattern has no match at the start of a text, whatever stands in front of the text. -/
def Misses : (pattern : Pattern) → (text : Text) → Prop
  | regex shape anyCase _, text =>
    ∀ before pos, shape.matchAt anyCase ⟨before, text, pos, none⟩ = none
  | custom _, _ => False
  | scanner, text => scanner.after? text = .ok none

/-- A pattern takes exactly a part of a text in front of what follows. A scanner starts at its
trigger. -/
def Takes : (pattern : Pattern) → (part follow : Text) → Prop
  | regex shape anyCase _, part, follow =>
    ∀ before pos, ∃ after, shape.matchAt anyCase ⟨before, part ++ follow, pos, none⟩ = some after ∧
      after.pos = pos + part.length
  | custom _, _, _ => False
  | scanner, part, follow =>
    (∃ trigger, scanner.trigger? = some trigger ∧ part.head? = some trigger) ∧
      scanner.after? (part ++ follow) = .ok (some follow)

/-- No match starts inside a text that something follows. -/
def Quiet (pattern : Pattern) : (text follow : Text) → Prop := Throughout pattern.Misses

/-- Where a match takes one of certain characters first, a text without them is quiet. -/
theorem quiet_of_first {pattern : Pattern} {text follow : Text} {starts : Char → Bool}
    (first : ∀ c rest, starts c = false → pattern.Misses (c :: rest))
    (none : ∀ c ∈ text, starts c = false) : pattern.Quiet text follow := by
  intro rest ends filled
  cases rest with
  | nil => exact absurd rfl filled
  | cons c later => exact first c (later ++ follow) (none c (ends.subset List.mem_cons_self))

/-- A scanner's search passes over a text in which no match starts. -/
theorem scanFrom_passes {pattern : Pattern} {trigger : Char} {front text : Text}
    (quiet : ∀ rest, rest <:+ front → rest ≠ [] → pattern.after? (rest ++ text) = .ok none)
    (pos : Nat) :
    pattern.scanFrom trigger pos (front ++ text) =
      pattern.scanFrom trigger (pos + front.length) text := by
  induction front generalizing pos with
  | nil => rfl
  | cons c front inductionHypothesis =>
    have missed := quiet (c :: front) (List.suffix_refl _) (List.cons_ne_nil c front)
    have later := inductionHypothesis
      (fun rest ends => quiet rest (ends.trans (List.suffix_cons c front))) (pos + 1)
    have counted : pos + (c :: front).length = pos + 1 + front.length := by
      rw [List.length_cons]
      omega
    rw [List.cons_append] at missed ⊢
    rw [scanFrom_cons, missed, counted]
    split <;> exact later

/-- A search finds the match that starts right behind a quiet text. -/
theorem search_takes {pattern : Pattern} {front part follow : Text}
    (quiet : pattern.Quiet front (part ++ follow)) (takes : pattern.Takes part follow) :
    ∃ found, pattern.search (front ++ (part ++ follow)) = .ok (some found) ∧
      found.start = front.length ∧ found.stop = front.length + part.length := by
  have scanned {trigger : Char} (head : part.head? = some trigger)
      (after : pattern.after? (part ++ follow) = .ok (some follow))
      (passed : pattern.scanFrom trigger 0 (front ++ (part ++ follow)) =
        pattern.scanFrom trigger (0 + front.length) (part ++ follow)) :
      ∃ found, pattern.scanFrom trigger 0 (front ++ (part ++ follow)) = .ok (some found) ∧
        found.start = front.length ∧ found.stop = front.length + part.length := by
    cases part with
    | nil => cases head
    | cons c later =>
      cases head
      rw [List.cons_append] at after
      rw [passed, List.cons_append, scanFrom_cons, if_pos rfl, after]
      refine ⟨_, rfl, Nat.zero_add _, ?_⟩
      simp only [List.length_cons, List.length_append]
      omega
  cases pattern with
  | regex shape anyCase written =>
    obtain ⟨last, passed⟩ := Regex.searchFrom_passes quiet none 0
    obtain ⟨after, matched, stop⟩ := takes last (0 + front.length)
    have found : shape.searchFrom anyCase none 0 (front ++ (part ++ follow)) =
        some (0 + front.length, after) := by
      rw [passed]
      unfold Regex.searchFrom
      rw [matched]
    refine ⟨foundAt shape (0 + front.length) after, ?_, Nat.zero_add _, ?_⟩
    · show Except.ok ((shape.searchFrom anyCase none 0 (front ++ (part ++ follow))).map _) = _
      rw [found]
      rfl
    · rw [foundAt, stop, Nat.zero_add]
  | custom search => exact takes.elim
  | braces | spread | tag | lead =>
    obtain ⟨⟨trigger, triggered, head⟩, after⟩ := takes
    cases triggered
    exact scanned head after (scanFrom_passes quiet 0)

/-- A search finds nothing in a quiet text. -/
theorem search_misses {pattern : Pattern} {text : Text} (quiet : pattern.Quiet text [])
    (ended : pattern.Misses []) : pattern.search text = .ok none := by
  have passes {trigger : Char}
      (none : ∀ rest, rest <:+ text → rest ≠ [] → pattern.after? (rest ++ []) = .ok none) :
      pattern.scanFrom trigger 0 text = .ok Option.none := by
    have passed : pattern.scanFrom trigger 0 (text ++ []) =
        pattern.scanFrom trigger (0 + text.length) [] := scanFrom_passes none 0
    rw [List.append_nil] at passed
    exact passed
  cases pattern with
  | regex shape anyCase written =>
    obtain ⟨last, passed⟩ := Regex.searchFrom_passes quiet none 0
    have nothing : shape.searchFrom anyCase none 0 text = none := by
      rw [List.append_nil] at passed
      rw [passed]
      unfold Regex.searchFrom
      rw [ended]
    show Except.ok ((shape.searchFrom anyCase none 0 text).map _) = _
    rw [nothing]
    rfl
  | custom search => exact ended.elim
  | braces | spread | tag | lead => exact passes quiet

end Pattern

end TemplHighlight
