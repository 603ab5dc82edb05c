import Mathlib.Data.List.Chain
import Mathlib.Logic.Relation
import TemplHighlight.Grammar.RuleSet

/-!
# The chain of rests

The rules that are tried on a text are those of a set, then those of the set it goes on with, and so
on. In a grammar this may lead back: a rest that is the root leads to the grammar itself, and from
there to wherever its own rest leads. The loop remembers the sets that it has passed and stops at
the first one that it meets again. Here this loop is a relation on what it remembers and where it
stands, and the chain of a set is what comes out of it. The root is the only way back, so the loop
ends: behind the root's own chain there is nothing that was not met before.

Sets are told apart by their labels. Where labels do this, the loop passes every set that can be
reached along rests, and each of them once.
-/

namespace TemplHighlight.RuleSet

/-! ## The loop -/

/-- The rule set that a link leads to in a grammar. -/
def target? (root : RuleSet) : Link RuleSet → Option RuleSet
  | .none => none
  | .root => some root
  | .to set => some set

/-- A rule set goes on with another one in a grammar. -/
def GoesOn (root set next : RuleSet) : Prop := target? root set.rest = some next

/-- A rule set can be reached from a set along rests. -/
def OnChain (root set other : RuleSet) : Prop := Relation.ReflTransGen (GoesOn root) set other

/-- The loop over the sets on a chain. It remembers the labels of the sets that it has passed and
stands at a set, or at the end. Until it stops it passes some sets, and tries the rules of each,
name by name. -/
inductive Iterates (root : RuleSet) :
    List String → Option RuleSet → List RuleSet → List (String × Rule) → Prop where
  | ends (seen : List String) : Iterates root seen none [] []
  | again {seen : List String} {set : RuleSet} (met : set.label ∈ seen) :
      Iterates root seen (some set) [] []
  | visit {seen : List String} {set : RuleSet} {sets : List RuleSet}
      {tried : List (String × Rule)} (new : set.label ∉ seen)
      (later : Iterates root (set.label :: seen) (target? root set.rest) sets tried) :
      Iterates root seen (some set) (set :: sets) (set.allRules ++ tried)

variable {root set other : RuleSet} {current : Option RuleSet} {seen : List String}
  {sets sets' : List RuleSet} {tried tried' : List (String × Rule)}

/-- From one state the loop passes the same sets every time. -/
theorem Iterates.unique (run : Iterates root seen current sets tried)
    (run' : Iterates root seen current sets' tried') : sets = sets' ∧ tried = tried' := by
  induction run generalizing sets' tried' with
  | ends => cases run'; exact ⟨rfl, rfl⟩
  | again met =>
    cases run' with
    | again => exact ⟨rfl, rfl⟩
    | visit new => exact absurd met new
  | visit new _ inductionHypothesis =>
    cases run' with
    | again met => exact absurd met new
    | visit _ later =>
      obtain ⟨rfl, rfl⟩ := inductionHypothesis later
      exact ⟨rfl, rfl⟩

/-- The loop passes no set that it remembers, and no two with one label. -/
theorem Iterates.fresh (run : Iterates root seen current sets tried) :
    (∀ name ∈ sets.map label, name ∉ seen) ∧ (sets.map label).Nodup := by
  induction run with
  | ends => exact ⟨nofun, List.nodup_nil⟩
  | again => exact ⟨nofun, List.nodup_nil⟩
  | visit new _ inductionHypothesis =>
    obtain ⟨notSeen, distinct⟩ := inductionHypothesis
    constructor
    · intro name passed
      rcases List.mem_cons.mp passed with rfl | passedLater
      · exact new
      · exact fun isSeen => notSeen name passedLater (List.mem_cons_of_mem _ isSeen)
    · exact List.nodup_cons.mpr ⟨fun later => notSeen _ later List.mem_cons_self, distinct⟩

/-- The first set that the loop passes is the one it stands at. -/
theorem Iterates.first (run : Iterates root seen current sets tried) {set : RuleSet}
    (starts : set ∈ sets.head?) : current = some set := by
  cases run with
  | ends => cases starts
  | again => cases starts
  | visit => exact congrArg some (Option.some.inj starts)

/-- Each set that the loop passes goes on with the next. -/
theorem Iterates.inOrder (run : Iterates root seen current sets tried) :
    sets.IsChain (GoesOn root) := by
  induction run with
  | ends => exact .nil
  | again => exact .nil
  | visit _ later inductionHypothesis =>
    exact List.isChain_cons.mpr ⟨fun _ starts => later.first starts, inductionHypothesis⟩

/-- All sets that the loop passes can be reached from where it stands. -/
theorem Iterates.reached (run : Iterates root seen current sets tried) (passed : other ∈ sets) :
    ∃ start, current = some start ∧ OnChain root start other := by
  induction run with
  | ends => cases passed
  | again => cases passed
  | @visit _ set _ _ _ _ inductionHypothesis =>
    refine ⟨set, rfl, ?_⟩
    rcases List.mem_cons.mp passed with rfl | passedLater
    · exact .refl
    · obtain ⟨next, goesOn, onChain⟩ := inductionHypothesis passedLater
      exact .head goesOn onChain

/-- The loop does not stop too early: the set where it stands has a label that it remembers, or that
of a set it passes. -/
theorem Iterates.metOrPassed (run : Iterates root seen (some set) sets tried) :
    set.label ∈ seen ∨ ∃ same ∈ sets, same.label = set.label := by
  cases run with
  | again met => exact .inl met
  | visit => exact .inr ⟨set, List.mem_cons_self, rfl⟩

/-- The same holds for every set that a passed one goes on with. -/
theorem Iterates.closed (run : Iterates root seen current sets tried) {passed next : RuleSet}
    (isPassed : passed ∈ sets) (goesOn : GoesOn root passed next) :
    next.label ∈ seen ∨ ∃ same ∈ sets, same.label = next.label := by
  induction run with
  | ends => cases isPassed
  | again => cases isPassed
  | @visit seen set sets _ _ later inductionHypothesis =>
    have behind : next.label ∈ set.label :: seen ∨ ∃ same ∈ sets, same.label = next.label := by
      rcases List.mem_cons.mp isPassed with rfl | passedLater
      · rw [goesOn] at later
        exact later.metOrPassed
      · exact inductionHypothesis passedLater
    rcases behind with remembered | ⟨same, passedLater, sameLabel⟩
    · rcases List.mem_cons.mp remembered with isHere | isSeen
      · exact .inr ⟨set, List.mem_cons_self, isHere.symm⟩
      · exact .inl isSeen
    · exact .inr ⟨same, List.mem_cons_of_mem set passedLater, sameLabel⟩

/-! ## The chain of a set -/

/-- A set stands in front of those that its rest leads to. -/
theorem links_eq (set : RuleSet) : set.links = set :: linksFrom set.rest := by
  cases set
  rfl

/-- Standing at the first set of a list, the loop passes the sets up to the first that was met, if
it does so behind that set. -/
theorem iterates_takeUnseen
    (later : set.label ∉ seen → Iterates root (set.label :: seen) (target? root set.rest)
      (takeUnseen (set.label :: seen) sets)
      ((takeUnseen (set.label :: seen) sets).flatMap allRules)) :
    Iterates root seen (some set) (takeUnseen seen (set :: sets))
      ((takeUnseen seen (set :: sets)).flatMap allRules) := by
  rw [takeUnseen]
  by_cases met : set.label ∈ seen
  · rw [if_pos met]
    exact .again met
  · rw [if_neg met, List.flatMap_cons]
    exact .visit met (later met)

mutual

/-- Once the root was met, a rest that leads back to it ends the loop. -/
theorem iterates_links (root : RuleSet) (seen : List String) : (set : RuleSet) →
    (set.endsAtRoot → root.label ∈ seen) →
    Iterates root seen (some set) (takeUnseen seen set.links)
      ((takeUnseen seen set.links).flatMap allRules)
  | ⟨label, _, rest⟩, back =>
    iterates_takeUnseen fun _ => iterates_linksFrom root (label :: seen) rest fun endsAtRoot =>
      List.mem_cons_of_mem label (back endsAtRoot)

/-- So it is from a link on. -/
theorem iterates_linksFrom (root : RuleSet) (seen : List String) : (link : Link RuleSet) →
    (linkEndsAtRoot link → root.label ∈ seen) →
    Iterates root seen (target? root link) (takeUnseen seen (linksFrom link))
      ((takeUnseen seen (linksFrom link)).flatMap allRules)
  | .none, _ => .ends seen
  | .root, back => .again (back rfl)
  | .to set, back => iterates_links root seen set back

end

/-- At the root the loop goes along the root's own chain. -/
theorem iterates_root (root : RuleSet) (seen : List String) :
    Iterates root seen (some root) (takeUnseen seen root.links)
      ((takeUnseen seen root.links).flatMap allRules) := by
  rw [links_eq]
  refine iterates_takeUnseen fun _ => ?_
  exact iterates_linksFrom root (root.label :: seen) root.rest fun _ => List.mem_cons_self

mutual

/-- From a set the loop goes along the set's own rests, and then along the root's chain if they lead
to the root. -/
theorem iterates_chain (root : RuleSet) (seen : List String) : (set : RuleSet) →
    Iterates root seen (some set)
      (takeUnseen seen (set.links ++ if set.endsAtRoot then root.links else []))
      ((takeUnseen seen (set.links ++ if set.endsAtRoot then root.links else [])).flatMap allRules)
  | ⟨label, _, rest⟩ => iterates_takeUnseen fun _ => iterates_chainFrom root (label :: seen) rest

/-- So it does from a link on. -/
theorem iterates_chainFrom (root : RuleSet) (seen : List String) : (link : Link RuleSet) →
    Iterates root seen (target? root link)
      (takeUnseen seen (linksFrom link ++ if linkEndsAtRoot link then root.links else []))
      ((takeUnseen seen (linksFrom link ++ if linkEndsAtRoot link then root.links else [])).flatMap
        allRules)
  | .none => .ends seen
  | .root => iterates_root root seen
  | .to set => iterates_chain root seen set

end

/-- Labels tell apart the sets that can be reached from a set along rests. -/
def ToldApart (root set : RuleSet) : Prop :=
  ∀ one other, OnChain root set one → OnChain root set other → one.label = other.label → one = other

/-- What is tried on a text that is split with a rule set of a grammar. -/
structure TriesChain (root set : RuleSet) : Prop where
  /-- The loop ends. It passes the sets of the chain, and tries all their rules in order. -/
  ends : Iterates root [] (some set) (chain root set) (chainRules root set)
  /-- It does nothing else. -/
  only : ∀ sets tried, Iterates root [] (some set) sets tried →
    sets = chain root set ∧ tried = chainRules root set
  first : (chain root set).head? = some set
  /-- Each set on the chain goes on with the next. -/
  inOrder : (chain root set).IsChain (GoesOn root)
  once : ((chain root set).map label).Nodup
  /-- No set that can be reached along rests is left out. -/
  every : ToldApart root set → ∀ other, other ∈ chain root set ↔ OnChain root set other

/-- On every chain of rests, whether it ends, leads to the root or leads back to sets that it came
through, the loop ends, and it tries the rules of each set on the chain once and in order.

Proof: every set that a set on the chain goes on with has the label of some set on the chain. If
labels tell the sets apart it is that set. So the chain is closed under going on, and holds all sets
that can be reached. -/
theorem triesChain (root set : RuleSet) : TriesChain root set := by
  have run : Iterates root [] (some set) (chain root set) (chainRules root set) :=
    iterates_chain root [] set
  have starts : chain root set = set :: takeUnseen [set.label]
      (linksFrom set.rest ++ if set.endsAtRoot then root.links else []) := by
    rw [chain, links_eq, List.cons_append, takeUnseen, if_neg List.not_mem_nil]
  constructor
  case ends => exact run
  case only => exact fun sets tried run' => run'.unique run
  case first => rw [starts, List.head?_cons]
  case inOrder => exact run.inOrder
  case once => exact run.fresh.2
  case every =>
    intro told other
    have reached {passed : RuleSet} (isPassed : passed ∈ chain root set) :
        OnChain root set passed := by
      obtain ⟨start, here, onChain⟩ := run.reached isPassed
      exact Option.some.inj here ▸ onChain
    refine ⟨reached, fun onChain => ?_⟩
    induction onChain with
    | refl =>
      rw [starts]
      exact List.mem_cons_self
    | @tail passed next onChain goesOn inductionHypothesis =>
      rcases run.closed inductionHypothesis goesOn with remembered | ⟨same, isPassed, sameLabel⟩
      · cases remembered
      · exact told same next (reached isPassed) (.tail onChain goesOn) sameLabel ▸ isPassed

end TemplHighlight.RuleSet
