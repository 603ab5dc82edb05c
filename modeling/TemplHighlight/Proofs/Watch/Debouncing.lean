import TemplHighlight.Proofs.Site.Tasks
import TemplHighlight.Watch.Handler

/-!
# What comes of changes

Changes come in while timers expire and builds run, and the steps of each come between those of the
others in any order. Whatever the order is, at most one timer is pending, and one is after every
change; every timer that expires calls for one build; and a build is told that a configuration has
changed exactly if one has since the build before it started. So every change of a configuration is
reported to one build, the first that starts behind it, however the builds go.
-/

namespace TemplHighlight

/-- What is noted of a handler at work. -/
inductive Note where
  /-- A change that matters has come in, of a configuration file or of a source. -/
  | change (ofConfig : Bool)
  /-- A timer has expired. -/
  | expiry (number : Nat)
  /-- A build has started, and was told whether a configuration has changed. -/
  | build (told : Bool)
  deriving DecidableEq

namespace Note

/-- The timer that has expired. -/
def expiry? : Note → Option Nat
  | expiry number => some number
  | _ => none

/-- What a build was told that has started. -/
def build? : Note → Option Bool
  | build told => some told
  | _ => none

/-- The timers that have expired. -/
def expiries (notes : List Note) : List Nat := notes.filterMap expiry?

/-- What the builds were told that have started. -/
def builds (notes : List Note) : List Bool := notes.filterMap build?

/-- A configuration has changed since the last build started, or at all if none has. -/
def ConfigChanged (notes : List Note) : Prop :=
  ∃ before after, notes = before ++ change true :: after ∧ ∀ told, build told ∉ after

end Note

/-- A handler at work. -/
structure Listening where
  handler : Handler
  /-- How many changes have come in for which no timer has started yet. -/
  due : Nat := 0
  /-- What was noted so far, in order. -/
  notes : List Note := []

/-- Whether a change matters to a handler. -/
def Handler.matters (handler : Handler) (current : Location) (path : Text) (isDirectory : Bool) :
    Bool :=
  !isDirectory && match handler.isRelevant current path with
    | .ok relevant => relevant
    | .error _ => false

/-- The steps of a handler at work. A change takes two: it comes in, and a timer starts for it; and
so does a build that is called for by a timer. -/
inductive Step where
  /-- A change comes in. -/
  | hear (path : Text) (isDirectory : Bool)
  /-- A timer starts for a change that has come in. -/
  | rearm
  /-- A timer expires, if it is pending. -/
  | ring (number : Nat)
  /-- A build starts, if one is called for and none is running. -/
  | start
  /-- The build that is running returns or fails. -/
  | finish (returned : Bool)
  /-- The handler gets another configuration. -/
  | configure (config : Config)

namespace Listening

variable (current : Location)

/-- A handler at work after a step. -/
def after (listening : Listening) : Step → Listening
  | .hear path isDirectory =>
    if listening.handler.matters current path isDirectory then
      let ofConfig := decide (Handler.lastName path = Config.fileName)
      { handler := { listening.handler with
          debouncer := listening.handler.debouncer.mark ofConfig }
        due := listening.due + 1
        notes := listening.notes ++ [.change ofConfig] }
    else listening
  | .rearm =>
    match listening.due with
    | 0 => listening
    | due + 1 =>
      { listening with
        handler := { listening.handler with debouncer := listening.handler.debouncer.rearm }
        due }
  | .ring number =>
    if listening.handler.debouncer.timers[number]? = some .pending then
      { listening with
        handler := { listening.handler with debouncer := listening.handler.debouncer.ring number }
        notes := listening.notes ++ [.expiry number] }
    else listening
  | .start =>
    match listening.handler.debouncer.start with
    | (some told, debouncer) =>
      { listening with
        handler := { listening.handler with debouncer }
        notes := listening.notes ++ [.build told] }
    | (none, _) => listening
  | .finish _ =>
    { listening with
      handler := { listening.handler with debouncer := listening.handler.debouncer.rest } }
  | .configure config => { listening with handler := { listening.handler with config } }

/-- A handler at work after steps, one after the other. -/
def run (steps : List Step) (listening : Listening) : Listening :=
  steps.foldl (after current) listening

end Listening

/-! ## Timers -/

namespace Debouncer

/-- Starting a timer anew cancels the one that was started last. -/
theorem restart_concat (front : List Timer) (last : Timer) :
    restart (front ++ [last]) = front ++ [cancel last, .pending] := by
  induction front with
  | nil => rfl
  | cons timer front inductionHypothesis =>
    cases front with
    | nil => rfl
    | cons other front => exact congrArg (timer :: ·) inductionHypothesis

/-- No timer is pending but the one that was started last. -/
def OnlyLast (timers : List Timer) : Prop := ∀ timer ∈ timers.dropLast, timer ≠ .pending

namespace OnlyLast

/-- Where no timer in front is pending, the last one may be. -/
theorem of_front {front : List Timer} {last : Timer} (only : ∀ timer ∈ front, timer ≠ .pending) :
    OnlyLast (front ++ [last]) := by
  rw [OnlyLast, List.dropLast_concat]
  exact only

/-- No timer is pending, or none but the last. -/
theorem count_le_one {timers : List Timer} (only : OnlyLast timers) :
    timers.count .pending ≤ 1 := by
  rcases List.eq_nil_or_concat timers with rfl | ⟨front, last, rfl⟩
  · exact Nat.zero_le 1
  · rw [List.concat_eq_append] at only ⊢
    rw [OnlyLast, List.dropLast_concat] at only
    have none : front.count .pending = 0 :=
      List.count_eq_zero.mpr fun member => only _ member rfl
    rw [List.count_append, none, List.count_singleton]
    split <;> decide

/-- When a timer was started anew it is the one that is pending. -/
theorem restart {timers : List Timer} (only : OnlyLast timers) :
    OnlyLast (restart timers) ∧ (Debouncer.restart timers).count .pending = 1 := by
  rcases List.eq_nil_or_concat timers with rfl | ⟨front, last, rfl⟩
  · exact ⟨nofun, rfl⟩
  · rw [List.concat_eq_append] at only ⊢
    rw [OnlyLast, List.dropLast_concat] at only
    have cancelled : cancel last ≠ .pending := by
      cases last <;> decide
    have none : ∀ timer ∈ front ++ [cancel last], timer ≠ .pending :=
      List.forall_mem_append.mpr ⟨only, List.forall_mem_singleton.mpr cancelled⟩
    have split : Debouncer.restart (front ++ [last]) = (front ++ [cancel last]) ++ [.pending] := by
      rw [restart_concat, List.append_assoc]
      rfl
    rw [split]
    refine ⟨of_front none, ?_⟩
    rw [List.count_append, List.count_eq_zero.mpr fun member => none _ member rfl]
    rfl

/-- Timers that expire leave no other one pending. -/
theorem set {timers : List Timer} (only : OnlyLast timers) (number : Nat) :
    OnlyLast (timers.set number .expired) := by
  rcases List.eq_nil_or_concat timers with rfl | ⟨front, last, rfl⟩
  · exact only
  · rw [List.concat_eq_append] at only ⊢
    rw [OnlyLast, List.dropLast_concat] at only
    rw [List.set_append]
    split
    · refine of_front fun timer member => ?_
      rcases List.mem_or_eq_of_mem_set member with old | rfl
      · exact only timer old
      · decide
    · rcases Nat.eq_zero_or_pos (number - front.length) with zero | positive
      · rw [zero]
        exact of_front only
      · rw [List.set_eq_of_length_le positive]
        exact of_front only

end OnlyLast

/-- A timer that has expired is not started anew. -/
theorem expired_restart {timers : List Timer} {number : Nat}
    (expired : timers[number]? = some .expired) :
    (restart timers)[number]? = some .expired := by
  rcases List.eq_nil_or_concat timers with rfl | ⟨front, last, rfl⟩
  · cases expired
  · rw [List.concat_eq_append] at expired ⊢
    rw [restart_concat]
    rcases Nat.lt_trichotomy number front.length with inFront | rfl | behind
    · rw [List.getElem?_append_left inFront] at expired ⊢
      exact expired
    · simp only [List.getElem?_concat_length, Option.some.injEq] at expired
      simp [expired, cancel]
    · rw [List.getElem?_eq_none (by simpa using Nat.succ_le_of_lt behind)] at expired
      cases expired

/-- What a debouncer does when it may start a build: it starts one that is called for, or none. -/
theorem start_cases (debouncer : Debouncer) :
    (∃ waiting, debouncer.running = false ∧ debouncer.waiting = waiting + 1 ∧
      debouncer.start = (some debouncer.configChanged,
        { debouncer with running := true, configChanged := false, waiting })) ∨
    debouncer.start = (none, debouncer) := by
  rw [start]
  split
  next waiting idle called => exact .inl ⟨waiting, idle, called, rfl⟩
  next => exact .inr rfl

/-- As soon as no build is running, one starts that is called for. -/
theorem rest_start (debouncer : Debouncer) {waiting : Nat}
    (called : debouncer.waiting = waiting + 1) :
    debouncer.rest.start = (some debouncer.configChanged,
      { debouncer with running := true, configChanged := false, waiting }) := by
  simp only [start, rest, called]

end Debouncer

/-! ## Notes -/

namespace Note

/-- Where a note stands in a record that one has been added to: it is the one that was added, or it
was there before. -/
theorem concat_split {notes before after : List Note} {last note : Note}
    (split : notes ++ [last] = before ++ note :: after) :
    (notes = before ∧ last = note ∧ after = []) ∨
      ∃ front, after = front ++ [last] ∧ notes = before ++ note :: front := by
  rcases List.eq_nil_or_concat after with rfl | ⟨front, final, rfl⟩
  · obtain ⟨same, same'⟩ := List.append_inj' split rfl
    exact .inl ⟨same, (List.cons.inj same').1, rfl⟩
  · rw [List.concat_eq_append, ← List.cons_append, ← List.append_assoc] at split
    obtain ⟨same, same'⟩ := List.append_inj' split rfl
    obtain rfl := (List.cons.inj same').1
    exact .inr ⟨front, List.concat_eq_append, same⟩

/-- An expiry that is noted last comes behind the earlier ones. -/
@[simp] theorem expiries_concat (notes : List Note) (note : Note) :
    expiries (notes ++ [note]) = expiries notes ++ note.expiry?.toList := by
  rw [expiries, List.filterMap_append]
  cases note <;> rfl

/-- So does a build. -/
@[simp] theorem builds_concat (notes : List Note) (note : Note) :
    builds (notes ++ [note]) = builds notes ++ note.build?.toList := by
  rw [builds, List.filterMap_append]
  cases note <;> rfl

/-- A timer was noted to expire if it is among those that were. -/
theorem mem_expiries {notes : List Note} {number : Nat} (member : number ∈ expiries notes) :
    .expiry number ∈ notes := by
  obtain ⟨note, noted, same⟩ := List.mem_filterMap.mp member
  cases note with
  | expiry other => exact Option.some.inj same ▸ noted
  | change | build => cases same

/-- A configuration has changed when that was noted last, or before and no build has started. -/
theorem configChanged_concat (notes : List Note) (note : Note) :
    ConfigChanged (notes ++ [note]) ↔
      note = change true ∨ (ConfigChanged notes ∧ ∀ told, note ≠ build told) := by
  constructor
  · rintro ⟨before, after, split, quiet⟩
    rcases concat_split split with ⟨-, same, -⟩ | ⟨front, rfl, same⟩
    · exact .inl same
    · exact .inr ⟨⟨before, front, same, fun told member =>
        quiet told (List.mem_append_left [note] member)⟩, fun told same =>
        quiet told (List.mem_append_right front (same ▸ List.mem_singleton_self note))⟩
  · rintro (rfl | ⟨⟨before, after, rfl, quiet⟩, other⟩)
    · exact ⟨notes, [], rfl, nofun⟩
    · refine ⟨before, after ++ [note], by simp, fun told member => ?_⟩
      rcases List.mem_append.mp member with old | new
      · exact quiet told old
      · exact other told (List.mem_singleton.mp new).symm

/-- At first no configuration has changed. -/
theorem not_configChanged_nil : ¬ConfigChanged [] := by
  rintro ⟨before, after, split, -⟩
  exact absurd split.symm (by simp)

/-- Every build was told whether a configuration had changed since the build before. -/
def Informed (notes : List Note) : Prop :=
  ∀ before told after, notes = before ++ build told :: after →
    (told = true ↔ ConfigChanged before)

/-- Builds stay informed when one is noted that was told the truth. -/
theorem Informed.concat {notes : List Note} (informed : Informed notes) {note : Note}
    (right : ∀ told, note = build told → (told = true ↔ ConfigChanged notes)) :
    Informed (notes ++ [note]) := by
  intro before told after split
  rcases concat_split split with ⟨rfl, same, -⟩ | ⟨front, -, same⟩
  · exact right told same
  · exact informed before told front same

end Note

/-! ## What every step preserves -/

/-- A handler at work is in order. -/
structure Orderly (listening : Listening) : Prop where
  /-- At most the timer that was started last is pending. -/
  only : Debouncer.OnlyLast listening.handler.debouncer.timers
  /-- The timers that were noted to expire have expired. -/
  expired : ∀ number, .expiry number ∈ listening.notes →
    listening.handler.debouncer.timers[number]? = some .expired
  /-- Each expires once. -/
  once : (Note.expiries listening.notes).Nodup
  /-- For each that has expired a build has started or waits. -/
  answered : (Note.builds listening.notes).length + listening.handler.debouncer.waiting =
    (Note.expiries listening.notes).length
  /-- What is remembered of the configuration is right. -/
  remembered : listening.handler.debouncer.configChanged = true ↔
    Note.ConfigChanged listening.notes
  /-- And so is what the builds were told. -/
  informed : Note.Informed listening.notes
  /-- A build is to come for every change of a configuration that was not reported. -/
  awaited : Note.ConfigChanged listening.notes → 0 < listening.due ∨
    listening.handler.debouncer.pendingCount = 1 ∨ 0 < listening.handler.debouncer.waiting

namespace Orderly

variable {listening : Listening} (orderly : Orderly listening)

include orderly

/-- A change that comes in leaves a handler in order. -/
theorem hear (current : Location) (path : Text) (isDirectory : Bool) :
    Orderly (listening.after current (.hear path isDirectory)) := by
  rw [Listening.after]
  split
  · refine ⟨orderly.only, fun number member => ?_, ?_, ?_, ?_, ?_, fun _ => .inl (Nat.succ_pos _)⟩
    · refine orderly.expired number ((List.mem_append.mp member).resolve_right ?_)
      simp
    · simpa [Note.expiry?] using orderly.once
    · simpa [Note.expiry?, Note.build?, Debouncer.mark] using orderly.answered
    · rw [Note.configChanged_concat, ← orderly.remembered]
      simp [Debouncer.mark, or_comm]
    · exact orderly.informed.concat nofun
  · exact orderly

/-- A timer that starts leaves a handler in order. -/
theorem rearm (current : Location) : Orderly (listening.after current .rearm) := by
  rw [Listening.after]
  split
  next => exact orderly
  next due _ =>
    exact {
      only := orderly.only.restart.1
      expired := fun number member => Debouncer.expired_restart (orderly.expired number member)
      once := orderly.once
      answered := orderly.answered
      remembered := orderly.remembered
      informed := orderly.informed
      awaited := fun _ => .inr (.inl orderly.only.restart.2) }

/-- A timer that expires leaves a handler in order. -/
theorem ring (current : Location) (number : Nat) :
    Orderly (listening.after current (.ring number)) := by
  rw [Listening.after]
  split
  next pending =>
    have fresh : .expiry number ∉ listening.notes := fun member => by
      rw [orderly.expired number member] at pending
      cases pending
    have bound : number < listening.handler.debouncer.timers.length :=
      (List.getElem?_eq_some_iff.mp pending).1
    rw [Debouncer.ring, if_pos pending]
    refine ⟨orderly.only.set number, fun other member => ?_, ?_, ?_, ?_, ?_, fun _ =>
      .inr (.inr (Nat.succ_pos _))⟩
    · rcases List.mem_append.mp member with old | new
      · rw [List.getElem?_set_ne fun same : number = other => fresh (same ▸ old)]
        exact orderly.expired other old
      · obtain rfl : other = number := by simpa using new
        exact List.getElem?_set_self bound
    · rw [Note.expiries_concat]
      refine List.nodup_append.mpr ⟨orderly.once, List.pairwise_singleton _ _, ?_⟩
      rintro other member _ new rfl
      obtain rfl : other = number := List.mem_singleton.mp new
      exact fresh (Note.mem_expiries member)
    · have answered := orderly.answered
      simp only [Note.expiries_concat, Note.builds_concat, Note.expiry?, Note.build?,
        List.length_append, Option.toList, List.length_nil, List.length_singleton]
      omega
    · rw [Note.configChanged_concat, ← orderly.remembered]
      simp
    · exact orderly.informed.concat nofun
  next => exact orderly

/-- A build that starts leaves a handler in order. -/
theorem start (current : Location) : Orderly (listening.after current .start) := by
  rw [Listening.after]
  rcases Debouncer.start_cases listening.handler.debouncer with
    ⟨waiting, -, called, started⟩ | none
  · rw [started]
    have gone : ¬Note.ConfigChanged (listening.notes ++
        [.build listening.handler.debouncer.configChanged]) := by
      simp [Note.configChanged_concat]
    refine ⟨orderly.only, fun number member => ?_, ?_, ?_, ?_, ?_, fun changed =>
      absurd changed gone⟩
    · refine orderly.expired number ((List.mem_append.mp member).resolve_right ?_)
      simp
    · simpa [Note.expiry?] using orderly.once
    · have answered := orderly.answered
      simp only [Note.expiries_concat, Note.builds_concat, Note.expiry?, Note.build?,
        List.length_append, Option.toList, List.length_nil, List.length_singleton]
      omega
    · exact iff_of_false Bool.false_ne_true gone
    · refine orderly.informed.concat fun told same => ?_
      rw [← Note.build.inj same]
      exact orderly.remembered
  · rw [none]
    exact orderly

/-- Every step leaves a handler in order. -/
theorem after (current : Location) : ∀ step, Orderly (listening.after current step)
  | .hear path isDirectory => orderly.hear current path isDirectory
  | .rearm => orderly.rearm current
  | .ring number => orderly.ring current number
  | .start => orderly.start current
  | .finish _ => { orderly with }
  | .configure _ => { orderly with }

/-- And so do all steps, one after the other. -/
theorem run (current : Location) (steps : List Step) :
    Orderly (listening.run current steps) := by
  induction steps generalizing listening with
  | nil => exact orderly
  | cons step steps inductionHypothesis => exact inductionHypothesis (orderly.after current step)

end Orderly

/-- A handler that starts to work is in order. -/
theorem Orderly.fresh {handler : Handler} (idle : handler.debouncer = {}) :
    Orderly { handler } where
  only := by rw [idle]; exact nofun
  expired := nofun
  once := List.nodup_nil
  answered := by rw [idle]; rfl
  remembered := by
    rw [idle]
    exact iff_of_false Bool.false_ne_true Note.not_configChanged_nil
  informed := fun before told after split => absurd split (by simp)
  awaited := fun changed => absurd changed Note.not_configChanged_nil

/-! ## The steps of the operations -/

namespace Listening

variable (current : Location) (listening : Listening)

/-- Taking note of a change takes two steps: the change comes in, and a timer starts for it. -/
theorem notice_steps (path : Text) (isDirectory : Bool) (session : Session) :
    Ends (listening.handler.notice path isDirectory) session
      (fun handler _ => handler =
        if listening.handler.matters session.disk.current path isDirectory then
          (listening.run session.disk.current [.hear path isDirectory, .rearm]).handler
        else listening.handler)
      fun after => listening.handler.matters session.disk.current path isDirectory = false ∧
        after = session := by
  unfold Handler.notice
  cases isDirectory with
  | true => exact .pure rfl
  | false =>
    have matters : listening.handler.matters session.disk.current path false =
        match listening.handler.isRelevant session.disk.current path with
        | .ok relevant => relevant
        | .error _ => false := Bool.true_and _
    refine .bind (.look ?_)
    cases relevance : listening.handler.isRelevant session.disk.current path with
    | error failure =>
      rw [relevance] at matters
      exact .bind (show Ends (throw failure) session _ _ from ⟨matters, rfl⟩)
    | ok relevant =>
      rw [relevance] at matters
      refine .bind (.pure ?_)
      cases relevant with
      | false => exact .pure (if_neg (by simp [matters])).symm
      | true =>
        refine .bind (.printLine (.pure ?_))
        rw [if_pos matters]
        simp [run, after, matters, Debouncer.change]

/-- A build that starts is noted with what it is told. -/
theorem start_steps :
    (listening.after current .start).handler.debouncer =
        listening.handler.debouncer.start.2 ∧
      Note.builds (listening.after current .start).notes =
        Note.builds listening.notes ++ listening.handler.debouncer.start.1.toList := by
  rw [after]
  rcases listening.handler.debouncer.start_cases with ⟨waiting, -, -, started⟩ | none
  · simp [started, Note.build?]
  · simp [none]

/-- The expiry of a timer takes two steps: the timer expires, and a build may start. -/
theorem expire_steps (number : Nat) :
    (listening.run current [.ring number, .start]).handler.debouncer =
        (listening.handler.debouncer.expire number).2 ∧
      Note.builds (listening.run current [.ring number, .start]).notes =
        Note.builds listening.notes ++ (listening.handler.debouncer.expire number).1.toList := by
  have rang : (listening.after current (.ring number)).handler.debouncer =
        listening.handler.debouncer.ring number ∧
      Note.builds (listening.after current (.ring number)).notes = Note.builds listening.notes := by
    rw [after]
    split
    next => simp [Note.build?]
    next idle => exact ⟨(if_neg idle).symm, rfl⟩
  have started := (listening.after current (.ring number)).start_steps current
  rwa [rang.1, rang.2] at started

/-- So does the end of a build: it ends, and one that has waited may start. -/
theorem finish_steps (returned : Bool) :
    (listening.run current [.finish returned, .start]).handler.debouncer =
        listening.handler.debouncer.finish.2 ∧
      Note.builds (listening.run current [.finish returned, .start]).notes =
        Note.builds listening.notes ++ listening.handler.debouncer.finish.1.toList :=
  (listening.after current (.finish returned)).start_steps current

/-- Whatever steps a handler has taken since it was made, in whatever order: at most one timer is
pending, and after a change that matters exactly one is, while other changes are nothing to it. No
timer expires twice, for each that has expired a build has started or waits, and as soon as no build
is running one that waits starts. Every build was told whether a configuration had changed since the
build before it started; and as long as a change has not been told, a build is to come, as a timer
is to start or pending, or as a build waits. -/
theorem debounced (config : Config) (root : Text) (steps : List Step) :
    let listening := run current steps { handler := { config, root } }
    let debouncer := listening.handler.debouncer
    debouncer.pendingCount ≤ 1 ∧
      (∀ path isDirectory, if listening.handler.matters current path isDirectory
        then (listening.run current [.hear path isDirectory, .rearm]).handler.debouncer.pendingCount
          = 1
        else listening.after current (.hear path isDirectory) = listening) ∧
      (listening.due ≠ 0 → (listening.after current .rearm).handler.debouncer.pendingCount = 1) ∧
      (Note.expiries listening.notes).Nodup ∧
      (Note.builds listening.notes).length + debouncer.waiting =
        (Note.expiries listening.notes).length ∧
      (∀ returned, debouncer.waiting ≠ 0 →
        (listening.run current [.finish returned, .start]).notes =
          listening.notes ++ [.build debouncer.configChanged]) ∧
      (∀ before told after, listening.notes = before ++ .build told :: after →
        (told = true ↔ Note.ConfigChanged before)) ∧
      (debouncer.configChanged = true ↔ Note.ConfigChanged listening.notes) ∧
      (Note.ConfigChanged listening.notes →
        listening.due ≠ 0 ∨ debouncer.pendingCount = 1 ∨ debouncer.waiting ≠ 0) := by
  intro listening debouncer
  have orderly : Orderly listening := (Orderly.fresh rfl).run current steps
  have rearmed : ∀ {listening : Listening}, Orderly listening → listening.due ≠ 0 →
      (listening.after current .rearm).handler.debouncer.pendingCount = 1 := by
    intro listening orderly due
    obtain ⟨due, isDue⟩ := Nat.exists_eq_succ_of_ne_zero due
    rw [after, isDue]
    exact orderly.only.restart.2
  refine ⟨orderly.only.count_le_one, fun path isDirectory => ?_, rearmed orderly, orderly.once,
    orderly.answered, fun returned waits => ?_, orderly.informed, orderly.remembered,
    fun changed => ?_⟩
  · split
    next matters =>
      refine rearmed (orderly.hear current path isDirectory) ?_
      rw [after, if_pos matters]
      exact Nat.succ_ne_zero _
    next unimportant => exact if_neg unimportant
  · obtain ⟨waiting, waits⟩ := Nat.exists_eq_succ_of_ne_zero waits
    have starts : (listening.after current (.finish returned)).handler.debouncer.start = _ :=
      debouncer.rest_start waits
    show ((listening.after current (.finish returned)).after current .start).notes = _
    rw [after, starts]
    rfl
  · simpa [Nat.pos_iff_ne_zero] using orderly.awaited changed

end Listening

end TemplHighlight
