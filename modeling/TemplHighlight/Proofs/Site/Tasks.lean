import TemplHighlight.Proofs.Outcome
import TemplHighlight.Site.Build

/-!
# How tasks end

A task ends with a value or with a failure, and in both cases in a state. What holds at the end is
proved from what the parts of the task do: each part either fails, which ends the task right there,
or hands a value and a state to the part behind it. For every way to change files and a site there
is one rule here, so a task is followed step by step and its parts are not opened.
-/

namespace TemplHighlight

/-- A task that is started in a state ends with a value and a state for which `done` holds, or fails
in a state for which `failed` holds. -/
def Ends {ε σ α : Type} (task : EStateM ε σ α) (start : σ) (done : α → σ → Prop)
    (failed : σ → Prop) : Prop :=
  match task start with
  | .ok value finish => done value finish
  | .error _ finish => failed finish

/-- The state that a task ends in, with a value or with a failure. -/
def finalState {ε σ α : Type} (task : EStateM ε σ α) (start : σ) : σ :=
  match task start with
  | .ok _ finish | .error _ finish => finish

/-- What follows a part of a task that has ended with a value. -/
theorem bind_of_ok {ε σ α β : Type} {task : EStateM ε σ β} {next : β → EStateM ε σ α} {start : σ}
    (value : β) (middle : σ) (ended : task start = .ok value middle) :
    (task >>= next) start = next value middle := by
  show EStateM.bind task next start = _
  rw [EStateM.bind, ended]

/-- A part of a task that has failed ends the task. -/
theorem bind_of_error {ε σ α β : Type} {task : EStateM ε σ β} {next : β → EStateM ε σ α}
    {start middle : σ} {failure : ε} (failed : task start = .error failure middle) :
    (task >>= next) start = .error failure middle := by
  show EStateM.bind task next start = _
  rw [EStateM.bind, failed]

/-- A task fails where its first part fails, or where what follows it does. -/
theorem bind_eq_failure {ε σ α β : Type} {task : EStateM ε σ β} {next : β → EStateM ε σ α}
    {start finish : σ} {failure : ε} :
    (task >>= next) start = .error failure finish ↔ task start = .error failure finish ∨
      ∃ value middle, task start = .ok value middle ∧ next value middle = .error failure finish := by
  cases ended : task start with
  | error other middle =>
    rw [bind_of_error ended]
    constructor
    · rintro ⟨⟩
      exact .inl rfl
    · rintro (⟨⟨⟩⟩ | ⟨_, _, ⟨⟩, _⟩)
      rfl
  | ok value middle =>
    rw [bind_of_ok value middle ended]
    refine ⟨fun failed => .inr ⟨value, middle, rfl, failed⟩, ?_⟩
    rintro (failed | ⟨_, _, ⟨⟩, failed⟩)
    · cases failed
    · exact failed

/-- Work in a session that has ended with a value, as work on a site. -/
theorem SiteTask.ofTask_of_ok {α : Type} {task : SessionTask α} {state : SiteState} {value : α}
    {session : Session} (ended : task state.session = .ok value session) :
    SiteTask.ofTask task state = .ok value { state with session } := by
  rw [SiteTask.ofTask, ended]

/-- Work in a session that has failed, as work on a site. -/
theorem SiteTask.ofTask_of_error {α : Type} {task : SessionTask α} {state : SiteState}
    {failure : Failure} {session : Session} (failed : task state.session = .error failure session) :
    SiteTask.ofTask task state = .error failure { state with session } := by
  rw [SiteTask.ofTask, failed]

/-- How a task ends can be computed. -/
instance decidableEnds {ε σ : Type} {result : EStateM.Result ε σ Unit} {holds : σ → Prop}
    [DecidablePred holds] : Decidable (∃ finish, result = .ok () finish ∧ holds finish) :=
  match result with
  | .ok () finish => decidable_of_iff (holds finish)
      ⟨fun has => ⟨finish, rfl, has⟩, fun ⟨_, same, has⟩ => by cases same; exact has⟩
  | .error _ _ => .isFalse nofun

namespace Ends

section

variable {ε σ α β : Type} {start : σ} {done : α → σ → Prop} {failed : σ → Prop}

/-- A task that has ended with a value. -/
theorem of_ok {task : EStateM ε σ α} {value : α} {finish : σ} (ends : Ends task start done failed)
    (ended : task start = .ok value finish) : done value finish := by
  rw [Ends, ended] at ends
  exact ends

/-- What holds in both cases holds of the state that the task ends in. -/
theorem final {task : EStateM ε σ α} {holds : σ → Prop}
    (ends : Ends task start (fun _ => holds) holds) : holds (finalState task start) := by
  unfold Ends at ends
  unfold finalState
  cases result : task start with
  | ok value finish =>
    rw [result] at ends
    exact ends
  | error failure finish =>
    rw [result] at ends
    exact ends

/-- A value that is at hand. -/
theorem pure {value : α} (has : done value start) :
    Ends (Pure.pure value : EStateM ε σ α) start done failed := has

/-- A part of a task and what follows it. -/
theorem bind {task : EStateM ε σ β} {next : β → EStateM ε σ α}
    (first : Ends task start (fun value middle => Ends (next value) middle done failed) failed) :
    Ends (task >>= next) start done failed := by
  unfold Ends at first ⊢
  show (match EStateM.bind task next start with
    | .ok value finish => done value finish
    | .error _ finish => failed finish)
  unfold EStateM.bind
  cases result : task start with
  | ok value middle =>
    rw [result] at first
    exact first
  | error failure middle =>
    rw [result] at first
    exact first

/-- What holds at the end can be weakened. -/
theorem mono {task : EStateM ε σ α} {done' : α → σ → Prop} {failed' : σ → Prop}
    (ends : Ends task start done failed) (weaker : ∀ value finish, done value finish →
      done' value finish) (weakerFailed : ∀ finish, failed finish → failed' finish) :
    Ends task start done' failed' := by
  unfold Ends at ends ⊢
  cases result : task start with
  | ok value finish =>
    rw [result] at ends
    exact weaker value finish ends
  | error failure finish =>
    rw [result] at ends
    exact weakerFailed finish ends

end

/-! ## Working in a session -/

section

variable {α : Type} {session : Session} {path : Text}

/-- A result that is at hand, or its failure. -/
theorem ofExcept {result : Except Failure α} {done : α → Session → Prop}
    {failed : Session → Prop} (has : ∀ value, result = .ok value → done value session)
    (stays : failed session) : Ends (Session.ofExcept result) session done failed := by
  cases result with
  | ok value => exact has value rfl
  | error failure => exact stays

/-- What can be seen of the files. -/
theorem look {view : Disk → α} {done : α → Session → Prop} {failed : Session → Prop}
    (has : done (view session.disk) session) : Ends (Session.look view) session done failed := has

/-- Messages that are logged. -/
theorem logAll {messages : Log} {done : Unit → Session → Prop} {failed : Session → Prop}
    (has : done () { session with logged := session.logged ++ messages }) :
    Ends (Session.logAll messages) session done failed := has

/-- A line that is printed. -/
theorem printLine {line : Text} {done : Unit → Session → Prop} {failed : Session → Prop}
    (has : done () { session with printed := session.printed ++ (line ++ ['\n']) }) :
    Ends (Session.printLine line) session done failed := has

/-- A change of the files. -/
theorem change {operation : Disk → Except FileError Disk} {done : Unit → Session → Prop}
    {failed : Session → Prop}
    (changes : ∀ disk, operation session.disk = .ok disk → done () { session with disk })
    (stays : failed session) : Ends (Session.change operation) session done failed := by
  refine bind ?_
  show Ends _ session done failed
  split
  · exact changes _ ‹_›
  · exact stays

/-- Directories that are made. -/
theorem makeDirectories {path : Path} {done : Unit → Session → Prop} {failed : Session → Prop}
    (makes : ∀ disk, session.disk.makeDirectories path = .ok disk → done () { session with disk })
    (stays : failed session) : Ends (Session.makeDirectories path) session done failed :=
  change makes stays

/-- A text that is written to a file. -/
theorem writeText {text : Text} {done : Unit → Session → Prop} {failed : Session → Prop}
    (writes : ∀ disk, session.disk.write path (Utf8.encode text) = .ok disk →
      done () { session with disk })
    (stays : failed session) : Ends (Session.writeText path text) session done failed :=
  change writes stays

end

/-! ## Working on a site -/

section

variable {state : SiteState}

/-- The site as it is. -/
theorem site {done : Site → SiteState → Prop} {failed : SiteState → Prop}
    (has : done state.site state) : Ends SiteTask.site state done failed := has

/-- A change of the site. -/
theorem setSite {change : Site → Site} {done : Unit → SiteState → Prop}
    {failed : SiteState → Prop} (has : done () { state with site := change state.site }) :
    Ends (SiteTask.setSite change) state done failed := has

end

/-- Work in a session, as work on a site. -/
theorem ofTask {α : Type} {task : SessionTask α} {state : SiteState}
    {done : α → SiteState → Prop} {failed : SiteState → Prop}
    (ends : Ends task state.session (fun value session => done value { state with session })
      fun session => failed { state with session }) :
    Ends (SiteTask.ofTask task) state done failed := by
  unfold Ends at ends ⊢
  unfold SiteTask.ofTask
  cases result : task state.session with
  | ok value session =>
    rw [result] at ends
    exact ends
  | error failure session =>
    rw [result] at ends
    exact ends

end Ends

end TemplHighlight
