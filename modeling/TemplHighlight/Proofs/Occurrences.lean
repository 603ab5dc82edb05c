import Mathlib.Data.List.Induction
import Mathlib.Data.List.Nodup

/-!
# First occurrences

A list without its repetitions has each value where it occurs first.
-/

namespace TemplHighlight

variable {α : Type} [BEq α] [LawfulBEq α]

/-- A value that is added at the end of a list is a first occurrence if it is new. -/
theorem eraseDups_concat [DecidableEq α] (values : List α) (value : α) :
    (values ++ [value]).eraseDups =
      if value ∈ values then values.eraseDups else values.eraseDups ++ [value] := by
  rw [List.eraseDups_append]
  by_cases there : value ∈ values
  · simp [List.removeAll, there]
  · simp [List.removeAll, there, List.eraseDups_cons]

/-- Each value occurs first only once. -/
theorem nodup_eraseDups (values : List α) : values.eraseDups.Nodup := by
  classical
  induction values using List.reverseRecOn with
  | nil => exact List.nodup_nil
  | append_singleton values value inductionHypothesis =>
    rw [eraseDups_concat]
    by_cases there : value ∈ values
    · rwa [if_pos there]
    · rw [if_neg there, ← List.concat_eq_append]
      exact inductionHypothesis.concat fun member => there (List.mem_eraseDups.mp member)

end TemplHighlight
