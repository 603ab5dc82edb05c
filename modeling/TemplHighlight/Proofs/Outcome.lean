/-!
# Computations that may fail

Splitting a text is a chain of steps each of which may fail. A chain that has a result is taken
apart into steps that have results, and a run over a list keeps what each of its steps keeps.
-/

namespace TemplHighlight.Outcome

variable {ε α β : Type}

/-- What follows a step that has a result goes on with it. -/
theorem bind_ok (value : α) (next : α → Except ε β) : Except.ok value >>= next = next value := rfl

/-- A step and what follows it have a result if and only if the step has one from which the rest
has this result. -/
theorem bind_eq_ok {step : Except ε α} {next : α → Except ε β} {result : β} :
    step >>= next = .ok result ↔ ∃ value, step = .ok value ∧ next value = .ok result := by
  cases step with
  | error error => exact ⟨nofun, fun ⟨_, impossible, _⟩ => nomatch impossible⟩
  | ok value => exact ⟨fun rest => ⟨value, rfl, rest⟩, fun ⟨_, rfl, rest⟩ => rest⟩

/-- A step and what follows it fail if the step fails, or the rest fails with its result. -/
theorem bind_eq_error {step : Except ε α} {next : α → Except ε β} {failure : ε} :
    step >>= next = .error failure ↔
      step = .error failure ∨ ∃ value, step = .ok value ∧ next value = .error failure := by
  cases step with
  | error error =>
    refine ⟨fun same => .inl (congrArg _ (Except.error.inj same)), ?_⟩
    rintro (same | ⟨_, impossible, _⟩)
    · exact congrArg _ (Except.error.inj same)
    · cases impossible
  | ok value =>
    refine ⟨fun rest => .inr ⟨value, rfl, rest⟩, ?_⟩
    rintro (impossible | ⟨_, ⟨⟩, rest⟩)
    · cases impossible
    · exact rest

/-- A changed result comes from a result. -/
theorem map_eq_ok {step : Except ε α} {change : α → β} {result : β} :
    change <$> step = .ok result ↔ ∃ value, step = .ok value ∧ change value = result := by
  cases step with
  | error error => exact ⟨nofun, fun ⟨_, impossible, _⟩ => nomatch impossible⟩
  | ok value =>
    exact ⟨fun same => ⟨value, rfl, Except.ok.inj same⟩, fun ⟨_, rfl, same⟩ => same ▸ rfl⟩

/-- Changing a result does not change a failure. -/
theorem map_eq_error {step : Except ε α} {change : α → β} {failure : ε} :
    change <$> step = .error failure ↔ step = .error failure := by
  cases step with
  | error error => exact ⟨fun same => congrArg _ (Except.error.inj same), fun same => same ▸ rfl⟩
  | ok value => exact ⟨nofun, nofun⟩

/-- Other words for a failure do not change what has a result. -/
theorem mapError_eq_ok {δ : Type} {step : Except ε α} {change : ε → δ} {result : α} :
    step.mapError change = .ok result ↔ step = .ok result := by
  cases step with
  | error error => exact ⟨nofun, nofun⟩
  | ok value =>
    constructor <;>
    · rintro ⟨⟩
      rfl

/-- A failure in other words comes from a failure. -/
theorem of_mapError_eq_error {δ : Type} {step : Except ε α} {change : ε → δ} {failure : δ}
    (failed : step.mapError change = .error failure) : ∃ error, failure = change error := by
  cases step with
  | error error => exact ⟨error, (Except.error.inj failed).symm⟩
  | ok value => cases failed

/-- A result that is there is the result. -/
theorem toOption_eq_some {step : Except ε α} {result : α} :
    step.toOption = some result ↔ step = .ok result := by
  cases step with
  | error error => exact ⟨nofun, nofun⟩
  | ok value => exact ⟨fun same => congrArg _ (Option.some.inj same), fun same => same ▸ rfl⟩

/-- A step that has a result can be followed by one that has a result then. -/
theorem bind_total {step : Except ε α} {next : α → Except ε β}
    (has : ∃ value, step = .ok value ∧ ∃ result, next value = .ok result) :
    ∃ result, step >>= next = .ok result := by
  obtain ⟨value, done, result, rest⟩ := has
  exact ⟨result, bind_eq_ok.mpr ⟨value, done, rest⟩⟩

/-- What every step of a run keeps holds at the end of the run. -/
theorem foldlM_keeps {step : β → α → Except ε β} {steps : List α} (holds : β → Prop)
    (keeps : ∀ before after, ∀ current ∈ steps, holds before →
      step before current = .ok after → holds after)
    {start finish : β} (run : steps.foldlM step start = .ok finish) (atStart : holds start) :
    holds finish := by
  induction steps generalizing start with
  | nil =>
    cases run
    exact atStart
  | cons first later inductionHypothesis =>
    rw [List.foldlM_cons, bind_eq_ok] at run
    obtain ⟨middle, done, rest⟩ := run
    refine inductionHypothesis (fun before after current member =>
      keeps before after current (List.mem_cons_of_mem first member)) rest ?_
    exact keeps start middle first List.mem_cons_self atStart done

/-- A run comes to the same result with other steps, if these have the results that the steps have
wherever something holds that the steps keep. -/
theorem foldlM_replay {step other : β → α → Except ε β} {steps : List α} (holds : β → Prop)
    (replays : ∀ before after, ∀ current ∈ steps, holds before → step before current = .ok after →
      other before current = .ok after ∧ holds after)
    {start finish : β} (run : steps.foldlM step start = .ok finish) (atStart : holds start) :
    steps.foldlM other start = .ok finish := by
  induction steps generalizing start with
  | nil => exact run
  | cons first later inductionHypothesis =>
    rw [List.foldlM_cons, bind_eq_ok] at run ⊢
    obtain ⟨middle, done, rest⟩ := run
    obtain ⟨again, kept⟩ := replays start middle first List.mem_cons_self atStart done
    refine ⟨middle, again, inductionHypothesis ?_ rest kept⟩
    exact fun before after current member =>
      replays before after current (List.mem_cons_of_mem first member)

/-- A run has a result if every step has one wherever something holds, and keeps it. -/
theorem foldlM_total {step : β → α → Except ε β} {steps : List α} (holds : β → Prop)
    (goesOn : ∀ before, ∀ current ∈ steps, holds before →
      ∃ after, step before current = .ok after ∧ holds after)
    {start : β} (atStart : holds start) :
    ∃ finish, steps.foldlM step start = .ok finish := by
  induction steps generalizing start with
  | nil => exact ⟨start, rfl⟩
  | cons first later inductionHypothesis =>
    obtain ⟨middle, done, kept⟩ := goesOn start first List.mem_cons_self atStart
    rw [List.foldlM_cons]
    refine bind_total ⟨middle, done, inductionHypothesis ?_ kept⟩
    exact fun before current member => goesOn before current (List.mem_cons_of_mem first member)

end TemplHighlight.Outcome
