import TemplHighlight.Token.TagBody

/-!
# Runs of body text

Marking as it can be read: the stack goes once over the items and says of each whether it is body
text or is kept. What is kept stands for itself, with its own list marked; what is body text makes a
run with the body text next to it, and each run becomes one token. `runs` says this with the run
that is still open as an argument. `mark_runs` shows that the list of done items does the same work,
since text at its end always belongs to an open run.
-/

namespace TemplHighlight

mutual

/-- An induction over the depth of tokens: a token with a list has the property if all its items
do, and everything else has it at once. -/
theorem Tree.nested_induction {property : Tree → Prop}
    (flat : ∀ tree, tree.isNested = false → property tree)
    (nested : ∀ kind items aliases cached, (∀ item ∈ items, property item) →
      property (.token kind (.list items) aliases cached)) : (tree : Tree) → property tree
  | .token kind (.list items) aliases cached =>
    nested kind items aliases cached (Tree.nested_inductions flat nested items)
  | .token _ (.text _) _ _ | .token _ (.token ..) _ _ | .text _ | .list _ => flat _ rfl

/-- The same of each of the items of a list. -/
theorem Tree.nested_inductions {property : Tree → Prop}
    (flat : ∀ tree, tree.isNested = false → property tree)
    (nested : ∀ kind items aliases cached, (∀ item ∈ items, property item) →
      property (.token kind (.list items) aliases cached)) :
    (items : List Tree) → ∀ item ∈ items, property item
  | [] => nofun
  | first :: later => by
    intro item member
    rcases List.mem_cons.mp member with same | behind
    · exact same ▸ Tree.nested_induction flat nested first
    · exact Tree.nested_inductions flat nested later item behind

end

namespace TagBody

/-- The stack behind an item that is kept; nothing if the item is body text. -/
def stackAfter? (stack : List OpenTag) (item : Tree) : Option (List OpenTag) :=
  match head? item with
  | some head => some (afterTag item head stack)
  | none =>
    match afterBrace? item stack with
    | some counted => some counted
    | none => if inBody stack then none else some stack

/-- What an item that is kept becomes. A tag that was asked whether it closes itself carries its
source from then on. -/
def kept (item : Tree) : Tree :=
  match head? item with
  | some head => if isClosing head then markInside item else carrying item.source (markInside item)
  | none => markInside item

/-- The token of a run of body text, if there is one. -/
def closeRun : Option Text → List Tree
  | none => []
  | some text => [plainText text]

/-- The items with every run of body text merged, behind a run that is still open. -/
def runs (stack : List OpenTag) (run : Option Text) : List Tree → List Tree
  | [] => closeRun run
  | item :: items =>
    match stackAfter? stack item with
    | some stack' => closeRun run ++ kept item :: runs stack' none items
    | none => runs stack (some (run.getD [] ++ item.source)) items

/-! ## Marking merges the runs -/

/-- A tag token is no text. -/
theorem head?_text {item : Tree} {head : List Tree} (tag : head? item = some head) :
    isText item = false := by
  unfold head? at tag
  split at tag
  · rfl
  · cases tag

/-- A mark is a token without a list. -/
theorem isPunctuation_flat {mark : Text} {item : Tree} (punctuation : isPunctuation mark item) :
    item.isNested = false ∧ isText item = false := by
  unfold isPunctuation at punctuation
  split at punctuation
  · exact ⟨rfl, rfl⟩
  · cases punctuation

/-- What counts as a brace is a mark. -/
theorem afterBrace?_flat {item : Tree} {stack counted : List OpenTag}
    (brace : afterBrace? item stack = some counted) :
    item.isNested = false ∧ isText item = false := by
  cases stack with
  | nil => cases brace
  | cons top below =>
    simp only [afterBrace?] at brace
    split at brace
    · rename_i opening
      exact isPunctuation_flat opening
    · split at brace
      · rename_i closing
        exact isPunctuation_flat (Bool.and_eq_true_iff.mp closing).1
      · cases brace

/-- An item without a list of its own is kept as it is. -/
theorem kept_flat {item : Tree} (flat : item.isNested = false) : kept item = item := by
  have inside : markInside item = item := by
    unfold markInside
    split
    · cases flat
    · rfl
  have noHead : head? item = none := by
    unfold head?
    split
    · cases flat
    · rfl
  simp only [kept, noHead, inside]

/-- The source text that an item carries when it is kept. -/
def carriedBy (item : Tree) (cached : Option Text) : Option Text :=
  match head? item with
  | some head => if isClosing head then cached else some item.source
  | none => cached

/-- A token with a list is kept with its list marked. -/
theorem kept_nested (kind : TokenKind) (items : List Tree) (aliases : List String)
    (cached : Option Text) :
    kept (.token kind (.list items) aliases cached) =
      .token kind (.list (mark items)) aliases
        (carriedBy (.token kind (.list items) aliases cached) cached) := by
  unfold kept carriedBy
  split
  · split <;> rw [markInside] <;> rfl
  · rw [markInside]
    rfl

/-- An item has no list of its own, or is a token with a list. -/
theorem flat_or_nested (item : Tree) :
    item.isNested = false ∨ ∃ kind items aliases cached,
      item = .token kind (.list items) aliases cached := by
  unfold Tree.isNested
  split
  · exact .inr ⟨_, _, _, _, rfl⟩
  · exact .inl rfl

/-- Keeping an item does not turn it into text. -/
theorem isText_kept (item : Tree) : isText (kept item) = isText item := by
  rcases flat_or_nested item with flat | ⟨kind, items, aliases, cached, rfl⟩
  · rw [kept_flat flat]
  · rw [kept_nested]
    cases kind <;> rfl

/-- Where an item is kept and the next one can be body text, the item is no text: only a tag or a
brace opens or reopens a body. -/
theorem kept_not_text {stack stack' : List OpenTag} {item : Tree}
    (keeps : stackAfter? stack item = some stack') (body : inBody stack' = true) :
    isText (kept item) = false := by
  rw [isText_kept]
  unfold stackAfter? at keeps
  split at keeps
  · rename_i head tag
    exact head?_text tag
  · split at keeps
    · rename_i counted brace
      exact (afterBrace?_flat brace).2
    · split at keeps
      · cases keeps
      · rename_i outside
        cases keeps
        exact absurd body outside

/-- Marking item by item does what the stack says: an item is kept, or its text is added to the
items that are done. -/
theorem markFrom_cons (stack : List OpenTag) (done : List Tree) (item : Tree) (items : List Tree) :
    markFrom stack done (item :: items) =
      match stackAfter? stack item with
      | some stack' => markFrom stack' (kept item :: done) items
      | none => markFrom stack (addText item.source done) items := by
  rw [markFrom, stackAfter?]
  cases tag : head? item with
  | some head => simp only [kept, tag]
  | none =>
    cases brace : afterBrace? item stack with
    | some counted => simp only [kept_flat (afterBrace?_flat brace).1]
    | none =>
      cases inBody stack with
      | true => rfl
      | false => simp only [kept, tag]; rfl

/-- The items that are done end in the token of the open run. Where no run is open but one could
start, they do not end in text. -/
structure Ends (stack : List OpenTag) (run : Option Text) (done : List Tree) : Prop where
  inside : run.isSome = true → inBody stack = true
  fresh : inBody stack = true → run = none → ∀ last ∈ done.head?, isText last = false

/-- Text that is added to the done items is added to the open run, or starts one. -/
theorem addText_closeRun {run : Option Text} {done : List Tree} (text : Text)
    (fresh : run = none → ∀ last ∈ done.head?, isText last = false) :
    addText text (closeRun run ++ done) = closeRun (some (run.getD [] ++ text)) ++ done := by
  cases run with
  | some before => rfl
  | none =>
    cases done with
    | nil => rfl
    | cons last done =>
      have notText : isText last = false := fresh rfl last rfl
      simp [addText, closeRun, notText]

/-- Body text is only found in a body. -/
theorem inBody_of_stackAfter? {stack : List OpenTag} {item : Tree}
    (body : stackAfter? stack item = none) : inBody stack = true := by
  unfold stackAfter? at body
  split at body
  · cases body
  · split at body
    · cases body
    · split at body
      · assumption
      · cases body

/-- An open run is at most one item. -/
theorem closeRun_reverse (run : Option Text) : (closeRun run).reverse = closeRun run := by
  cases run <;> rfl

/-- Marking with some items done merges the runs of the rest behind them, the open run included. -/
theorem markFrom_runs {stack : List OpenTag} {run : Option Text} {done : List Tree}
    (ends : Ends stack run done) (items : List Tree) :
    markFrom stack (closeRun run ++ done) items = done.reverse ++ runs stack run items := by
  induction items generalizing stack run done with
  | nil =>
    rw [markFrom, runs, List.reverse_append, closeRun_reverse]
  | cons item items inductionHypothesis =>
    rw [markFrom_cons, runs]
    cases after : stackAfter? stack item with
    | some stack' =>
      have next : Ends stack' none (kept item :: (closeRun run ++ done)) := by
        refine ⟨nofun, ?_⟩
        rintro body - last ⟨⟩
        exact kept_not_text after body
      have step : markFrom stack' (kept item :: (closeRun run ++ done)) items =
          (kept item :: (closeRun run ++ done)).reverse ++ runs stack' none items :=
        inductionHypothesis next
      simp only [step, List.reverse_cons, List.reverse_append, closeRun_reverse,
        List.append_assoc, List.singleton_append]
    | none =>
      have body := inBody_of_stackAfter? after
      have next : Ends stack (some (run.getD [] ++ item.source)) done := ⟨fun _ => body, nofun⟩
      simp only [addText_closeRun item.source (ends.fresh body)]
      exact inductionHypothesis next

/-- Marking merges the runs of body text. -/
theorem mark_runs (items : List Tree) : mark items = runs [] none items := by
  have start : Ends [] none [] := ⟨nofun, nofun⟩
  exact markFrom_runs start items

end TagBody

end TemplHighlight
