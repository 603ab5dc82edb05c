import TemplHighlight.Text.Basic

/-!
# Leads and joined texts

A text starts with a lead if and only if there is something left behind the lead. What is in joined
texts is in one of them, or in the separator.
-/

namespace TemplHighlight.Text

/-- A lead is found in front of any text. -/
theorem after?_append (lead rest : Text) : after? lead (lead ++ rest) = some rest := by
  induction lead with
  | nil => rfl
  | cons l lead inductionHypothesis => simp [after?, inductionHypothesis]

/-- A text with something left behind a lead is the lead and what is left. -/
theorem eq_append_of_after? {lead text rest : Text} (behind : after? lead text = some rest) :
    text = lead ++ rest := by
  induction lead generalizing text with
  | nil =>
    cases behind
    rfl
  | cons l lead inductionHypothesis =>
    cases text with
    | nil => cases behind
    | cons c text =>
      rw [after?] at behind
      split at behind
      · rename_i same
        rw [same, inductionHypothesis behind]
        rfl
      · cases behind

/-- A character of joined texts is one of the separator or of one of the texts. -/
theorem mem_join {c : Char} {separator : Text} {texts : List Text}
    (member : c ∈ join separator texts) : c ∈ separator ∨ ∃ text ∈ texts, c ∈ text := by
  fun_induction join separator texts with
  | case1 => cases member
  | case2 last => exact .inr ⟨last, List.mem_singleton_self last, member⟩
  | case3 text more _ inductionHypothesis =>
    rcases List.mem_append.mp member with front | behind
    · rcases List.mem_append.mp front with here | between
      · exact .inr ⟨text, List.mem_cons_self, here⟩
      · exact .inl between
    · rcases inductionHypothesis behind with between | ⟨other, listed, there⟩
      · exact .inl between
      · exact .inr ⟨other, List.mem_cons_of_mem text listed, there⟩

end TemplHighlight.Text
