import TemplHighlight.Grammar.RuleSet
import TemplHighlight.Proofs.Pairs

/-!
# Rules put ahead of a name

Putting rules ahead of a name goes through a rule set once and builds the new one behind it. What is
built has three parts: the old entries ahead of the place, the new entries, and the old entries from
the place on, each old part without the names that are new. The place is the name to put the rules
ahead of, also if it is new itself, or the end if the name is not there. So no name occurs twice,
and none is lost.
-/

namespace TemplHighlight.RuleSet

open Pairs (outside outside_cons outside_append names_append)

variable {before name : String} {new built front back entries : List (String × List Rule)}
  {placed : Bool} {values : List Rule}

/-! ## One entry -/

/-- At an entry that is not the place, the entry goes to the end of what is built, unless its name
is new. -/
theorem rebuild_other (other : name ≠ before) :
    rebuild before new built placed ((name, values) :: entries) =
      rebuild before new (if Pairs.has name new then built else Pairs.put name values built) placed
        entries := by
  have notHere : (name == before) = false := beq_eq_false_iff_ne.mpr other
  rw [rebuild, if_neg other, notHere, Bool.or_false]

/-- At the place, the new entries go there first. -/
theorem rebuild_here :
    rebuild before new built placed ((before, values) :: entries) =
      rebuild before new
        (if Pairs.has before new then Pairs.putAll built new
          else Pairs.put before values (Pairs.putAll built new)) true entries := by
  rw [rebuild, if_pos rfl, beq_self_eq_true, Bool.or_true]

/-- Putting an entry puts it at the end, unless its name is new, if no name comes twice. -/
theorem put_outside (distinct : (Pairs.names (built ++ outside new [(name, values)])).Nodup) :
    (if Pairs.has name new then built else Pairs.put name values built) =
      built ++ outside new [(name, values)] := by
  rw [outside_cons] at *
  by_cases isNew : name ∈ Pairs.names new
  · rw [if_pos (Pairs.has_iff.mpr isNew), if_pos isNew]
    exact (List.append_nil built).symm
  · rw [if_neg isNew, names_append] at distinct
    rw [if_neg fun has => isNew (Pairs.has_iff.mp has), if_neg isNew]
    have absent : name ∉ Pairs.names built := fun there =>
      (List.nodup_append.mp distinct).2.2 name there name List.mem_cons_self rfl
    exact Pairs.put_absent absent values

/-! ## A run over entries -/

/-- Entries ahead of the place, or behind it, are kept in their order, without those whose names are
new. -/
theorem rebuild_passes (notThere : before ∉ Pairs.names front)
    (distinct : (Pairs.names (built ++ outside new front)).Nodup) :
    rebuild before new built placed (front ++ entries) =
      rebuild before new (built ++ outside new front) placed entries := by
  induction front generalizing built with
  | nil => exact congrArg (rebuild before new · placed entries) (List.append_nil built).symm
  | cons entry front inductionHypothesis =>
    obtain ⟨name, values⟩ := entry
    obtain ⟨differ, notLater⟩ := List.ne_and_not_mem_of_not_mem_cons notThere
    have parted : built ++ outside new ((name, values) :: front) =
        built ++ outside new [(name, values)] ++ outside new front := by
      rw [List.append_assoc, ← outside_append]
      rfl
    rw [parted] at distinct ⊢
    have distinctHere : (Pairs.names (built ++ outside new [(name, values)])).Nodup := by
      rw [names_append] at distinct
      exact (List.nodup_append.mp distinct).1
    rw [List.cons_append, rebuild_other (Ne.symm differ), put_outside distinctHere]
    exact inductionHypothesis notLater distinct

/-- What is put between the two parts of a table, and those parts without the names that are new,
have distinct names. -/
theorem nodup_spliced (distinct : (Pairs.names (front ++ back)).Nodup)
    (newDistinct : (Pairs.names new).Nodup) :
    (Pairs.names (outside new front ++ (new ++ outside new back))).Nodup := by
  rw [names_append] at distinct
  obtain ⟨inFront, inBack, apart⟩ := List.nodup_append.mp distinct
  have ofPart {part : List (String × List Rule)} {name : String}
      (kept : name ∈ Pairs.names (outside new part)) :
      name ∈ Pairs.names part ∧ name ∉ Pairs.names new := by
    rw [Pairs.names_outside, List.mem_filter, decide_eq_true_iff] at kept
    exact kept
  have nodupOutside {part : List (String × List Rule)} (distinct : (Pairs.names part).Nodup) :
      (Pairs.names (outside new part)).Nodup := by
    rw [Pairs.names_outside]
    exact distinct.filter _
  rw [names_append, names_append]
  refine List.nodup_append.mpr ⟨nodupOutside inFront,
    List.nodup_append.mpr ⟨newDistinct, nodupOutside inBack, ?_⟩, ?_⟩
  · rintro name isNew _ kept rfl
    exact (ofPart kept).2 isNew
  · rintro name kept _ member rfl
    rcases List.mem_append.mp member with isNew | keptBehind
    · exact (ofPart kept).2 isNew
    · exact apart name (ofPart kept).1 name (ofPart keptBehind).1 rfl

/-- What is built in the end: the new entries stand at the place, between the old ones that are kept
ahead of it and those that are kept behind it. -/
theorem rebuild_splices (notAhead : before ∉ Pairs.names front)
    (atPlace : back = [] ∨ ∃ values later, back = (before, values) :: later)
    (distinct : (Pairs.names (front ++ back)).Nodup) (newDistinct : (Pairs.names new).Nodup) :
    rebuild before new [] false (front ++ back) =
      outside new front ++ (new ++ outside new back) := by
  have spliced := nodup_spliced distinct newDistinct
  have built : (Pairs.names (outside new front ++ new)).Nodup := by
    rw [← List.append_assoc, names_append] at spliced
    exact (List.nodup_append.mp spliced).1
  have frontDistinct : (Pairs.names (outside new front)).Nodup := by
    rw [names_append] at built
    exact (List.nodup_append.mp built).1
  have put : Pairs.putAll (outside new front) new = outside new front ++ new :=
    Pairs.putAll_distinct built
  rw [rebuild_passes notAhead frontDistinct, List.nil_append]
  rcases atPlace with rfl | ⟨values, later, rfl⟩
  · rw [rebuild, if_neg Bool.false_ne_true, put]
    exact congrArg _ (List.append_nil new).symm
  · have notLater : before ∉ Pairs.names later := by
      rw [names_append] at distinct
      exact (List.nodup_cons.mp (List.nodup_append.mp distinct).2.1).1
    have parted : outside new front ++ (new ++ outside new ((before, values) :: later)) =
        outside new front ++ new ++ outside new [(before, values)] ++ outside new later := by
      rw [List.append_assoc, List.append_assoc, ← outside_append]
      rfl
    rw [parted] at spliced ⊢
    have opened : (Pairs.names
        (outside new front ++ new ++ outside new [(before, values)])).Nodup := by
      rw [names_append] at spliced
      exact (List.nodup_append.mp spliced).1
    rw [rebuild_here, put, put_outside opened]
    have passed : rebuild before new _ true (later ++ []) = rebuild before new _ true [] :=
      rebuild_passes notLater spliced
    rwa [List.append_nil, rebuild, if_pos rfl] at passed

/-- What is found in the parts together: the new rules under their names, else the old ones. -/
theorem get?_spliced (name : String) :
    Pairs.get? name (outside new front ++ (new ++ outside new back)) =
      (Pairs.get? name new).or (Pairs.get? name (front ++ back)) := by
  rw [Pairs.get?_append, Pairs.get?_append, Pairs.get?_append]
  by_cases isNew : name ∈ Pairs.names new
  · obtain ⟨values, found⟩ := Option.ne_none_iff_exists'.mp fun none =>
      Pairs.get?_eq_none.mp none isNew
    rw [Pairs.get?_outside_of_mem isNew, found]
    rfl
  · rw [Pairs.get?_outside_of_not_mem isNew, Pairs.get?_outside_of_not_mem isNew,
      Pairs.get?_eq_none.mpr isNew]
    rfl

/-! ## The rule set with the new rules -/

/-- The entries of a rule set fall into those ahead of a name and those from it on; if the name is
not there, all are ahead. -/
theorem entries_split (before : String) (entries : List (String × List Rule)) :
    ∃ front back, entries = front ++ back ∧ before ∉ Pairs.names front ∧
      (back = [] ∨ ∃ values later, back = (before, values) :: later) := by
  induction entries with
  | nil => exact ⟨[], [], rfl, List.not_mem_nil, .inl rfl⟩
  | cons entry entries inductionHypothesis =>
    obtain ⟨name, values⟩ := entry
    by_cases here : name = before
    · exact ⟨[], (name, values) :: entries, rfl, List.not_mem_nil,
        .inr ⟨values, entries, here ▸ rfl⟩⟩
    · obtain ⟨front, back, rfl, notAhead, atPlace⟩ := inductionHypothesis
      refine ⟨(name, values) :: front, back, rfl, ?_, atPlace⟩
      exact List.not_mem_cons_of_ne_of_not_mem (Ne.symm here) notAhead

/-- The three parts of the rule set with new rules ahead of a name. -/
theorem entries_insertBefore (set : RuleSet) (before : String) (more : List (String × List Rule))
    (distinct : set.names.Nodup) :
    ∃ front back, set.entries = front ++ back ∧ before ∉ Pairs.names front ∧
      (back = [] ∨ ∃ values later, back = (before, values) :: later) ∧
      (set.insertBefore before more).entries =
        outside (Pairs.ofList more) front ++
          (Pairs.ofList more ++ outside (Pairs.ofList more) back) := by
  obtain ⟨front, back, split, notAhead, atPlace⟩ := entries_split before set.entries
  refine ⟨front, back, split, notAhead, atPlace, ?_⟩
  rw [names, split] at distinct
  show rebuild before (Pairs.ofList more) [] false set.entries = _
  rw [split]
  exact rebuild_splices notAhead atPlace distinct (Pairs.nodup_names_ofList more)

/-- Its names, in three parts. -/
theorem names_insertBefore (set : RuleSet) (before : String) (more : List (String × List Rule))
    (distinct : set.names.Nodup) :
    ∃ front back, set.names = front ++ back ∧ before ∉ front ∧
      (back = [] ∨ ∃ later, back = before :: later) ∧
      (set.insertBefore before more).names =
        front.filter (· ∉ Pairs.names more) ++
          ((Pairs.names more).eraseDups ++ back.filter (· ∉ Pairs.names more)) := by
  obtain ⟨front, back, split, notAhead, atPlace, entries⟩ :=
    entries_insertBefore set before more distinct
  refine ⟨Pairs.names front, Pairs.names back, ?_, notAhead, ?_, ?_⟩
  · rw [names, split, names_append]
  · rcases atPlace with rfl | ⟨values, later, rfl⟩
    · exact .inl rfl
    · exact .inr ⟨Pairs.names later, rfl⟩
  · rw [names, entries, names_append, names_append, Pairs.names_outside, Pairs.names_outside,
      Pairs.names_ofList]
    simp only [List.mem_eraseDups]

/-- What is found in it: the rules put last under the name, else the old ones. -/
theorem get?_insertBefore (set : RuleSet) (before : String) (more : List (String × List Rule))
    (distinct : set.names.Nodup) (name : String) :
    Pairs.get? name (set.insertBefore before more).entries =
      (Pairs.get? name more.reverse).or (Pairs.get? name set.entries) := by
  obtain ⟨front, back, split, -, -, entries⟩ := entries_insertBefore set before more distinct
  rw [entries, split, get?_spliced, Pairs.get?_ofList]

/-- A rule set has new rules ahead of a name: old names that are new too have moved, and nothing
else has changed. -/
structure PlacedBefore (set : RuleSet) (before : String) (more : List (String × List Rule))
    (result : RuleSet) : Prop where
  /-- The new names stand together, in their order, right ahead of the name, or, if that name is new
  too, where it was. -/
  ahead : ∀ front back, set.names = front ++ before :: back →
    result.names = front.filter (· ∉ Pairs.names more) ++
      ((Pairs.names more).eraseDups ++ (before :: back).filter (· ∉ Pairs.names more))
  /-- If there is no such name, they come last. -/
  last : before ∉ set.names →
    result.names = set.names.filter (· ∉ Pairs.names more) ++ (Pairs.names more).eraseDups
  /-- Under a new name stand the rules that were given for it last. -/
  given : ∀ front name values back, more = front ++ (name, values) :: back →
    name ∉ Pairs.names back → result.rules name = values
  /-- The rules under all other names are the old ones. -/
  others : ∀ name, name ∉ Pairs.names more → result.rules name = set.rules name
  distinct : result.names.Nodup
  complete : ∀ name, name ∈ result.names ↔ name ∈ set.names ∨ name ∈ Pairs.names more
  rest : result.rest = set.rest

/-- Rules that are put ahead of a name stand there, in their order and without repetition, and those
that were under their names are gone. All else stays as it was, in its order: this holds for all
places of the name, of the names that move and of those that stay.

Proof: going through the entries, an entry that is not the place adds itself to the end of what is
built, or nothing if its name is new; the place adds the new entries in front of itself. So what is
built are the three parts, by induction over the entries ahead of the place and over those behind
it. -/
theorem insertBefore_places (set : RuleSet) (before : String) (more : List (String × List Rule))
    (distinct : set.names.Nodup) :
    PlacedBefore set before more (set.insertBefore before more) := by
  obtain ⟨front, back, split, notAhead, atPlace, built⟩ :=
    names_insertBefore set before more distinct
  constructor
  case ahead =>
    intro front' back' split'
    have once : before ∉ front' ∧ before ∉ back' := by
      rw [split', List.nodup_middle, List.nodup_cons, List.mem_append, not_or] at distinct
      exact distinct.1
    rcases atPlace with rfl | ⟨later, rfl⟩
    · have there : before ∈ front := by
        rw [← List.append_nil front, ← split, split']
        exact List.mem_append_right _ List.mem_cons_self
      exact absurd there notAhead
    · obtain ⟨rfl, -, rfl⟩ :=
        (List.append_cons_inj_of_notMem once.1 once.2).mp (split'.symm.trans split)
      exact built
  case last =>
    intro absent
    rcases atPlace with rfl | ⟨later, rfl⟩
    · rw [built, split, List.append_nil]
      exact congrArg _ (List.append_nil _)
    · rw [split] at absent
      exact absurd (List.mem_append_right _ List.mem_cons_self) absent
  case given =>
    rintro front name values back rfl notLater
    have found : Pairs.get? name (front ++ (name, values) :: back).reverse = some values := by
      rw [List.append_cons, Pairs.get?_reverse_append notLater, Pairs.get?_reverse_concat,
        if_pos rfl]
    rw [rules, get?_insertBefore set before _ distinct, found]
    rfl
  case others =>
    intro name notNew
    rw [rules, get?_insertBefore set before more distinct,
      Pairs.get?_reverse_eq_none.mpr notNew, Option.none_or, ← rules]
  case distinct =>
    obtain ⟨front, back, split, -, -, entries⟩ := entries_insertBefore set before more distinct
    rw [names, entries]
    rw [names, split] at distinct
    exact nodup_spliced distinct (Pairs.nodup_names_ofList more)
  case complete =>
    intro name
    rw [built, split]
    simp only [List.mem_append, List.mem_filter, List.mem_eraseDups, decide_eq_true_eq]
    by_cases isNew : name ∈ Pairs.names more <;> simp [isNew]
  case rest => rfl

/-- Four names, in order. -/
def fourNames : RuleSet := .ofList "four" [("a", []), ("b", []), ("c", []), ("d", [])]

/-- New rules, among them some for the name to put them ahead of and for one behind it. -/
def moreNames : List (String × List Rule) :=
  [("d", [{ pattern := .braces 0 }]), ("b", []), ("e", [])]

/-- Put ahead of `b`, the rules for `d` move to the front, and those for `b` itself move behind
them. -/
theorem insertBefore_places_moved :
    fourNames.names.Nodup ∧ PlacedBefore fourNames "b" moreNames
      (fourNames.insertBefore "b" moreNames) ∧
      (fourNames.insertBefore "b" moreNames).names = ["a", "d", "b", "e", "c"] :=
  have distinct : fourNames.names.Nodup := by decide
  ⟨distinct, insertBefore_places fourNames "b" moreNames distinct, rfl⟩

end TemplHighlight.RuleSet
