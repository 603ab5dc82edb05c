import TemplHighlight.Pairs
import TemplHighlight.Proofs.Occurrences

/-!
# What is found in a table

What was put under a name is found there, and what stands under other names stays.
-/

namespace TemplHighlight.Pairs

variable {α : Type}

/-- What was put under a name is found there. -/
theorem get?_put_self (name : String) (value : α) (pairs : Pairs α) :
    get? name (put name value pairs) = some value := by
  induction pairs with
  | nil => simp [put, get?]
  | cons pair rest inductionHypothesis =>
    obtain ⟨key, old⟩ := pair
    by_cases same : key = name
    · simp [put, get?, same]
    · simp [put, get?, same, inductionHypothesis]

/-- Under other names nothing changes. -/
theorem get?_put_other {name other : String} (differ : other ≠ name) (value : α)
    (pairs : Pairs α) : get? other (put name value pairs) = get? other pairs := by
  induction pairs with
  | nil => simp [put, get?, differ.symm]
  | cons pair rest inductionHypothesis =>
    obtain ⟨key, old⟩ := pair
    by_cases same : key = name
    · subst same
      simp [put, get?, differ.symm]
    · simp [put, get?, same, inductionHypothesis]

/-- What is found under a name stands there. -/
theorem mem_of_get? {name : String} {value : α} {pairs : Pairs α}
    (found : get? name pairs = some value) : (name, value) ∈ pairs := by
  induction pairs with
  | nil => cases found
  | cons pair rest inductionHypothesis =>
    obtain ⟨key, first⟩ := pair
    rw [get?] at found
    split at found
    next same =>
      cases found
      exact same ▸ List.mem_cons_self
    next => exact List.mem_cons_of_mem _ (inductionHypothesis found)

/-- There is a value under every name of a table, and under no other. -/
theorem get?_eq_none {name : String} {pairs : Pairs α} :
    get? name pairs = none ↔ name ∉ names pairs := by
  induction pairs with
  | nil => simp [get?, names]
  | cons pair rest inductionHypothesis =>
    obtain ⟨key, first⟩ := pair
    show (if key = name then some first else get? name rest) = none ↔ name ∉ key :: names rest
    rw [List.mem_cons, not_or]
    split
    next same => simp [same]
    next differ => rw [inductionHypothesis, and_iff_right (Ne.symm differ)]

/-- Putting adds one pair at most. -/
theorem mem_put {name : String} {value : α} {pairs : Pairs α} {pair : String × α}
    (member : pair ∈ put name value pairs) : pair = (name, value) ∨ pair ∈ pairs := by
  induction pairs with
  | nil => exact .inl (List.mem_singleton.mp member)
  | cons first rest inductionHypothesis =>
    obtain ⟨key, old⟩ := first
    rw [put] at member
    split at member
    next same =>
      rcases List.mem_cons.mp member with here | later
      · exact .inl (same ▸ here)
      · exact .inr (List.mem_cons_of_mem _ later)
    next =>
      rcases List.mem_cons.mp member with here | later
      · exact .inr (here ▸ List.mem_cons_self)
      · exact (inductionHypothesis later).imp_right (List.mem_cons_of_mem _)

/-- A new name is put at the end. -/
theorem put_absent {name : String} {pairs : Pairs α} (absent : name ∉ names pairs) (value : α) :
    put name value pairs = pairs ++ [(name, value)] := by
  induction pairs with
  | nil => rfl
  | cons pair rest inductionHypothesis =>
    obtain ⟨key, old⟩ := pair
    have differ : key ≠ name := fun same => absent (same ▸ List.mem_cons_self)
    rw [put, if_neg differ, inductionHypothesis fun later => absent (List.mem_cons_of_mem _ later)]
    rfl

/-- A new name comes last, any other stays in its place. -/
theorem names_put (name : String) (value : α) (pairs : Pairs α) :
    names (put name value pairs) =
      if name ∈ names pairs then names pairs else names pairs ++ [name] := by
  induction pairs with
  | nil => simp [put, names]
  | cons pair rest inductionHypothesis =>
    obtain ⟨key, old⟩ := pair
    by_cases same : key = name
    · simp [put, names, same]
    · have differ : name ≠ key := fun other => same other.symm
      rw [put, if_neg same]
      show key :: names (put name value rest) = _
      rw [inductionHypothesis]
      by_cases there : name ∈ names rest <;> simp_all [names]

/-- Putting leaves distinct names distinct. -/
theorem nodup_names_put {name : String} {value : α} {pairs : Pairs α}
    (distinct : (names pairs).Nodup) : (names (put name value pairs)).Nodup := by
  rw [names_put]
  by_cases there : name ∈ names pairs
  · rwa [if_pos there]
  · rw [if_neg there, ← List.concat_eq_append]
    exact distinct.concat there

/-- Distinct names that are put one after the other stay in their order. -/
theorem putAll_distinct {values before : Pairs α} (distinct : (names (before ++ values)).Nodup) :
    putAll before values = before ++ values := by
  induction values generalizing before with
  | nil => exact (List.append_nil before).symm
  | cons pair values inductionHypothesis =>
    obtain ⟨name, value⟩ := pair
    have absent : name ∉ names before := fun member => by
      rw [names, List.map_append, List.nodup_append] at distinct
      exact distinct.2.2 name member name List.mem_cons_self rfl
    rw [putAll, put_absent absent, inductionHypothesis (by simpa using distinct)]
    simp

/-! ## Two tables as one -/

/-- The names of the first table come first. -/
theorem names_append (first second : Pairs α) :
    names (first ++ second) = names first ++ names second := List.map_append

/-- What is found in two lists of pairs is found in the first, or else in the second. -/
theorem get?_append (name : String) (first second : Pairs α) :
    get? name (first ++ second) = (get? name first).or (get? name second) := by
  induction first with
  | nil => rfl
  | cons pair rest inductionHypothesis =>
    obtain ⟨key, value⟩ := pair
    rw [List.cons_append, get?, get?, inductionHypothesis]
    split <;> rfl

/-! ## The last pair of a name -/

/-- A pair at the end is the last one of its name. -/
theorem get?_reverse_concat (pairs : Pairs α) (name other : String) (value : α) :
    get? other (pairs ++ [(name, value)]).reverse =
      if name = other then some value else get? other pairs.reverse := by
  rw [List.reverse_concat]
  rfl

/-- There is a last pair of every name that some pair has, and of no other. -/
theorem get?_reverse_eq_none {pairs : Pairs α} {name : String} :
    get? name pairs.reverse = none ↔ name ∉ names pairs := by
  rw [get?_eq_none, names, List.map_reverse, List.mem_reverse, ← names]

/-- Pairs of other names do not change which is the last one of a name. -/
theorem get?_reverse_append {pairs more : Pairs α} {name : String}
    (absent : name ∉ names more) : get? name (pairs ++ more).reverse = get? name pairs.reverse := by
  rw [List.reverse_append, get?_append, get?_reverse_eq_none.mpr absent, Option.none_or]

/-! ## The table of a list -/

/-- A table has the names of its pairs. -/
theorem has_iff {name : String} {pairs : Pairs α} : has name pairs = true ↔ name ∈ names pairs := by
  rw [has, Option.isSome_iff_ne_none, ne_eq, get?_eq_none, not_not]

/-- Putting one more pair. -/
theorem putAll_concat (pairs values : Pairs α) (name : String) (value : α) :
    putAll pairs (values ++ [(name, value)]) = put name value (putAll pairs values) := by
  induction values generalizing pairs with
  | nil => rfl
  | cons first values inductionHypothesis => exact inductionHypothesis _

/-- The names of a table keep their places. New ones come behind them, each where it comes first. -/
theorem names_putAll (pairs values : Pairs α) :
    names (putAll pairs values) =
      names pairs ++ (names values).eraseDups.filter (· ∉ names pairs) := by
  induction values using List.reverseRecOn with
  | nil => exact (List.append_nil _).symm
  | append_singleton values last inductionHypothesis =>
    obtain ⟨name, value⟩ := last
    have added : names (values ++ [(name, value)]) = names values ++ [name] := List.map_append
    rw [putAll_concat, names_put, inductionHypothesis, added, eraseDups_concat]
    simp only [List.mem_append, List.mem_filter, List.mem_eraseDups, decide_eq_true_eq]
    by_cases there : name ∈ names pairs
    · by_cases put : name ∈ names values <;> simp [there, put]
    · by_cases put : name ∈ names values <;> simp [there, put]

/-- What was put last under a name is found there, else what was there before. -/
theorem get?_putAll (name : String) (pairs values : Pairs α) :
    get? name (putAll pairs values) = (get? name values.reverse).or (get? name pairs) := by
  induction values using List.reverseRecOn with
  | nil => rfl
  | append_singleton values last inductionHypothesis =>
    obtain ⟨other, value⟩ := last
    rw [putAll_concat, get?_reverse_concat]
    by_cases same : other = name
    · rw [if_pos same, ← same, get?_put_self]
      rfl
    · rw [if_neg same, get?_put_other (Ne.symm same), inductionHypothesis]

/-- The names of the table of a list come in the order in which they come first. -/
theorem names_ofList (pairs : List (String × α)) :
    names (ofList pairs) = (names pairs).eraseDups := by
  rw [ofList, names_putAll]
  simp [names]

/-- In the table of a list, the last pair of a name counts. -/
theorem get?_ofList (name : String) (pairs : List (String × α)) :
    get? name (ofList pairs) = get? name pairs.reverse := by
  rw [ofList, get?_putAll]
  exact Option.or_none

/-- A list without repeated names is its own table. -/
theorem ofList_distinct {pairs : List (String × α)} (distinct : (names pairs).Nodup) :
    ofList pairs = pairs := putAll_distinct distinct

/-- The names of the table of a list are distinct. -/
theorem nodup_names_ofList (pairs : List (String × α)) : (names (ofList pairs)).Nodup := by
  rw [names_ofList]
  exact nodup_eraseDups _

/-- In a table with distinct names, what stands under a name is found there. -/
theorem get?_of_mem {pairs : Pairs α} (distinct : (names pairs).Nodup) {name : String} {value : α}
    (there : (name, value) ∈ pairs) : get? name pairs = some value := by
  obtain ⟨front, back, rfl⟩ := List.append_of_mem there
  have notAhead : name ∉ names front := by
    intro ahead
    rw [names_append] at distinct
    exact (List.nodup_append.mp distinct).2.2 name ahead name List.mem_cons_self rfl
  rw [get?_append, get?_eq_none.mpr notAhead, Option.none_or, get?, if_pos rfl]

/-! ## One table over another -/

section Layers

variable {first second third : Pairs α} {name other : String}

/-- Tables with the same names in the same order and the same values under them are the same. -/
theorem eq_of_get? (distinct : (names first).Nodup) (sameNames : names first = names second)
    (sameValues : ∀ name, get? name first = get? name second) : first = second := by
  induction first generalizing second with
  | nil => exact (List.map_eq_nil_iff.mp sameNames.symm).symm
  | cons pair rest inductionHypothesis =>
    obtain ⟨key, value⟩ := pair
    obtain ⟨⟨key', value'⟩, rest', rfl, rfl, sameRest⟩ := List.map_eq_cons_iff.mp sameNames.symm
    obtain ⟨notLater, distinctRest⟩ := List.nodup_cons.mp distinct
    have sameFirst : value = value' := by
      have found := sameValues key'
      rwa [get?, get?, if_pos rfl, if_pos rfl, Option.some_inj] at found
    have sameOthers : ∀ name, get? name rest = get? name rest' := by
      intro name
      by_cases same : key' = name
      · subst same
        have notLater' : key' ∉ names rest' := by
          intro later
          apply notLater
          rwa [names, sameRest] at later
        rw [get?_eq_none.mpr notLater, get?_eq_none.mpr notLater']
      · have found := sameValues name
        rwa [get?, get?, if_neg same, if_neg same] at found
    rw [sameFirst, inductionHypothesis distinctRest sameRest.symm sameOthers]

/-- A table with distinct names keeps them in their places under another one; those that are new
come behind them. -/
theorem names_putAll_of_nodup (distinct : (names second).Nodup) :
    names (putAll first second) = names first ++ (names second).filter (· ∉ names first) := by
  rw [names_putAll, ← names_ofList, ofList_distinct distinct]

/-- The table on top comes first. -/
theorem get?_putAll_of_nodup (distinct : (names second).Nodup) (name : String) :
    get? name (putAll first second) = (get? name second).or (get? name first) := by
  rw [get?_putAll, ← get?_ofList, ofList_distinct distinct]

/-- Whatever is laid over a table with distinct names, they stay distinct. -/
theorem nodup_names_putAll (distinct : (names first).Nodup) (values : Pairs α) :
    (names (putAll first values)).Nodup := by
  induction values generalizing first with
  | nil => exact distinct
  | cons pair values inductionHypothesis => exact inductionHypothesis (nodup_names_put distinct)

/-- Three tables are laid over each other from below or from above. -/
theorem putAll_putAll (distinct : (names first).Nodup) (secondDistinct : (names second).Nodup)
    (thirdDistinct : (names third).Nodup) :
    putAll (putAll first second) third = putAll first (putAll second third) := by
  have bothDistinct : (names (putAll second third)).Nodup := nodup_names_putAll secondDistinct third
  apply eq_of_get? (nodup_names_putAll (nodup_names_putAll distinct second) third)
  case sameNames =>
    rw [names_putAll_of_nodup thirdDistinct, names_putAll_of_nodup secondDistinct,
      names_putAll_of_nodup bothDistinct, names_putAll_of_nodup thirdDistinct, List.filter_append,
      List.filter_filter, List.append_assoc]
    congr 2
    apply List.filter_congr
    intro name _
    -- a name of the third is new to the two others together just if it is new to each
    have alike : (name ∉ names first ++ (names second).filter (· ∉ names first)) ↔
        name ∉ names first ∧ name ∉ names second := by
      simp only [List.mem_append, List.mem_filter, decide_eq_true_eq]
      tauto
    rw [decide_eq_decide.mpr alike, Bool.decide_and]
  case sameValues =>
    intro name
    rw [get?_putAll_of_nodup thirdDistinct, get?_putAll_of_nodup secondDistinct,
      get?_putAll_of_nodup bothDistinct, get?_putAll_of_nodup thirdDistinct, Option.or_assoc]

/-- Pairs that a table has change nothing when they are put there. -/
theorem putAll_own {own : Pairs α} (distinct : (names first).Nodup) (within : own ⊆ first) :
    putAll first own = first := by
  have noNewNames : (names own).eraseDups.filter (· ∉ names first) = [] := by
    rw [List.filter_eq_nil_iff]
    intro name member isNew
    obtain ⟨pair, there, rfl⟩ := List.mem_map.mp (List.mem_eraseDups.mp member)
    exact of_decide_eq_true isNew (List.mem_map_of_mem (within there))
  apply eq_of_get? (nodup_names_putAll distinct own)
  case sameNames => rw [names_putAll, noNewNames, List.append_nil]
  case sameValues =>
    intro name
    rw [get?_putAll]
    cases found : get? name own.reverse with
    | none => rw [Option.none_or]
    | some value =>
      have there : (name, value) ∈ first := within (List.mem_reverse.mp (mem_of_get? found))
      rw [Option.some_or, get?_of_mem distinct there]

/-- The values under two names that are there can be changed in any order. -/
theorem put_comm (distinct : (names first).Nodup) (there : name ∈ names first)
    (otherThere : other ∈ names first) (differ : name ≠ other) (value otherValue : α) :
    put other otherValue (put name value first) = put name value (put other otherValue first) := by
  have kept {name other : String} (there : name ∈ names first) (otherThere : other ∈ names first)
      (value otherValue : α) :
      names (put other otherValue (put name value first)) = names first := by
    have once : names (put name value first) = names first := by rw [names_put, if_pos there]
    rw [names_put, once, if_pos otherThere]
  apply eq_of_get? (nodup_names_put (nodup_names_put distinct))
  case sameNames => rw [kept there otherThere, kept otherThere there]
  case sameValues =>
    intro asked
    by_cases isName : asked = name
    · subst isName
      rw [get?_put_other differ, get?_put_self, get?_put_self]
    · rw [get?_put_other isName]
      by_cases isOther : asked = other
      · subst isOther
        rw [get?_put_self, get?_put_self]
      · rw [get?_put_other isOther, get?_put_other isOther, get?_put_other isName]

end Layers

/-- Whatever a table has was there before or was put there. -/
theorem mem_putAll {pairs values : Pairs α} {pair : String × α}
    (member : pair ∈ putAll pairs values) : pair ∈ pairs ∨ pair ∈ values := by
  induction values generalizing pairs with
  | nil => exact .inl member
  | cons first values inductionHypothesis =>
    rcases inductionHypothesis member with put | later
    · rcases mem_put put with rfl | before
      · exact .inr List.mem_cons_self
      · exact .inl before
    · exact .inr (List.mem_cons_of_mem _ later)

/-- The table of a list has pairs of the list only. -/
theorem ofList_subset (pairs : List (String × α)) : ofList pairs ⊆ pairs := by
  intro pair member
  exact (mem_putAll member).resolve_left List.not_mem_nil

/-! ## Without the names of another table -/

/-- The pairs of a table whose names another one does not have. -/
def outside (others pairs : Pairs α) : Pairs α := pairs.filter fun pair => !has pair.1 others

/-- A pair is kept if and only if the other table does not have its name. -/
theorem outside_cons (others : Pairs α) (pair : String × α) (pairs : Pairs α) :
    outside others (pair :: pairs) =
      if pair.1 ∈ names others then outside others pairs else pair :: outside others pairs := by
  by_cases there : pair.1 ∈ names others
  · simp [outside, has_iff.mpr there, there]
  · have notHas : has pair.1 others = false := Bool.eq_false_iff.mpr fun is => there (has_iff.mp is)
    simp [outside, notHas, there]

/-- Pairs are kept or left out one by one. -/
theorem outside_append (others first second : Pairs α) :
    outside others (first ++ second) = outside others first ++ outside others second :=
  List.filter_append ..

/-- The names that are left are those that the other table does not have. -/
theorem names_outside (others pairs : Pairs α) :
    names (outside others pairs) = (names pairs).filter (· ∉ names others) := by
  induction pairs with
  | nil => rfl
  | cons pair pairs inductionHypothesis =>
    obtain ⟨name, value⟩ := pair
    have first : names ((name, value) :: pairs) = name :: names pairs := rfl
    rw [outside_cons, first]
    by_cases there : name ∈ names others
    · rw [if_pos there, inductionHypothesis, List.filter_cons_of_neg (by simpa using there)]
    · rw [if_neg there, List.filter_cons_of_pos (by simpa using there), ← inductionHypothesis]
      rfl

/-- A name that another table has is left out. -/
theorem get?_outside_of_mem {name : String} {others : Pairs α} (there : name ∈ names others)
    (pairs : Pairs α) : get? name (outside others pairs) = none := by
  rw [get?_eq_none, names_outside]
  simp [there]

/-- What stands under other names is kept. -/
theorem get?_outside_of_not_mem {name : String} {others : Pairs α} (absent : name ∉ names others)
    (pairs : Pairs α) : get? name (outside others pairs) = get? name pairs := by
  induction pairs with
  | nil => rfl
  | cons pair rest inductionHypothesis =>
    obtain ⟨key, value⟩ := pair
    rw [outside_cons]
    by_cases there : key ∈ names others
    · have differ : key ≠ name := fun same => absent (same ▸ there)
      rw [if_pos there, inductionHypothesis, get?, if_neg differ]
    · rw [if_neg there, get?, get?, inductionHypothesis]

/-! ## Changing all values -/

/-- Names stay when the values under them are changed. -/
theorem names_map {β : Type} (change : α → β) (pairs : Pairs α) :
    names (pairs.map (Prod.map id change)) = names pairs := by
  simp [names]

/-- Putting a changed value is putting the value and changing all. -/
theorem put_map {β : Type} (change : α → β) (name : String) (value : α) (pairs : Pairs α) :
    put name (change value) (pairs.map (Prod.map id change)) =
      (put name value pairs).map (Prod.map id change) := by
  induction pairs with
  | nil => rfl
  | cons pair rest inductionHypothesis =>
    obtain ⟨key, old⟩ := pair
    by_cases same : key = name
    · simp [put, same]
    · simp [put, same, inductionHypothesis]

/-- What is found among changed values is a changed value that was found. -/
theorem get?_map {β : Type} (change : α → β) (name : String) (pairs : Pairs α) :
    get? name (pairs.map (Prod.map id change)) = (get? name pairs).map change := by
  induction pairs with
  | nil => rfl
  | cons pair rest inductionHypothesis =>
    obtain ⟨key, old⟩ := pair
    by_cases same : key = name
    · simp [get?, same]
    · simp [get?, same, inductionHypothesis]

end TemplHighlight.Pairs
