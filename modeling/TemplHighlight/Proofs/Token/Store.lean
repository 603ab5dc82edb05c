import TemplHighlight.Proofs.Token.Bare

/-!
# Tokens that are shared

Tokens are made one after the other, from kinds, aliases and contents; a content may have tokens in
it that were made before, and one token may stand in several contents. A token is copied with another
content, and it is asked for its source text, which it then carries. The store has all tokens that
were made, so a token that is asked is asked wherever it stands.

The main statements of this module say what asking does to the tokens of a store and to what is made
later. The tokens that are there cover what they covered, and a token that is made or copied stays
what it is, whatever happens behind it. Two histories that differ in reads only have equal tokens.
-/

namespace TemplHighlight

/-! ## Contents -/

namespace Tokens

/-- The content of a token that is made: a text, a token that was made before, or a list of these. -/
inductive Content where
  | text (chars : Text)
  | token (id : Nat)
  | list (items : List Content)

namespace Content

mutual

/-- The tokens that stand in a content. -/
def ids : Content → List Nat
  | text _ => []
  | token id => [id]
  | list items => allIds items

/-- The tokens that stand in the items of a list. -/
def allIds : List Content → List Nat
  | [] => []
  | item :: items => item.ids ++ allIds items

end

mutual

/-- A content as a tree, if it is known what its tokens are. -/
def tree (made : Nat → Tree) : Content → Tree
  | text chars => .text chars
  | token id => made id
  | list items => .list (trees made items)

/-- The items of a list as trees. -/
def trees (made : Nat → Tree) : List Content → List Tree
  | [] => []
  | item :: items => item.tree made :: trees made items

end

section

variable {Result : Type} {made made' : Nat → Tree} (of of' : Tree → Result)
  {ofItems : List Result → Result}

mutual

/-- What is said of a list by its items is said of a content by its tokens. -/
theorem tree_congr (texts : ∀ chars, of (.text chars) = of' (.text chars))
    (lists : ∀ items, of (.list items) = ofItems (items.map of))
    (lists' : ∀ items, of' (.list items) = ofItems (items.map of')) :
    (content : Content) → (∀ id ∈ content.ids, of (made id) = of' (made' id)) →
      of (content.tree made) = of' (content.tree made')
  | .text chars, _ => texts chars
  | .token id, each => each id (List.mem_singleton_self id)
  | .list items, each => by
    rw [tree, tree, lists, lists', trees_congr texts lists lists' items each]

/-- The same of the items of a list. -/
theorem trees_congr (texts : ∀ chars, of (.text chars) = of' (.text chars))
    (lists : ∀ items, of (.list items) = ofItems (items.map of))
    (lists' : ∀ items, of' (.list items) = ofItems (items.map of')) :
    (items : List Content) → (∀ id ∈ allIds items, of (made id) = of' (made' id)) →
      (trees made items).map of = (trees made' items).map of'
  | [], _ => rfl
  | item :: items, each => by
    obtain ⟨first, later⟩ := List.forall_mem_append.mp each
    rw [trees, trees, List.map_cons, List.map_cons, tree_congr texts lists lists' item first,
      trees_congr texts lists lists' items later]

end

variable (content : Content)

/-- A content is the same without what its tokens carry if these are. -/
theorem bare_tree (each : ∀ id ∈ content.ids, (made id).bare = (made' id).bare) :
    (content.tree made).bare = (content.tree made').bare := by
  have lists (items : List Tree) : (Tree.list items).bare = .list (items.map Tree.bare) := by
    rw [Tree.bare, Tree.bareAll_eq_map]
  exact tree_congr _ _ (fun _ => rfl) lists lists content each

/-- A content covers the same at every depth if its tokens do. -/
theorem rememberAll_tree
    (each : ∀ id ∈ content.ids, (made id).rememberAll = (made' id).rememberAll) :
    (content.tree made).rememberAll = (content.tree made').rememberAll := by
  have lists (items : List Tree) :
      (Tree.list items).rememberAll = .list (items.map Tree.rememberAll) := by
    rw [Tree.rememberAll, Tree.rememberEach_eq_map]
  exact tree_congr _ _ (fun _ => rfl) lists lists content each

/-- A content covers the text of its leaves if its tokens do. -/
theorem source_tree (each : ∀ id ∈ content.ids, (made id).source = (made id).leafText) :
    (content.tree made).source = (content.tree made).leafText :=
  tree_congr Tree.source Tree.leafText (fun _ => rfl) Tree.sources_eq_flatten
    Tree.leafTexts_eq_flatten content each

end

end Content

/-! ## The store -/

/-- A token as it was made. It may carry a source text, given to it or written into it later. -/
structure Cell where
  kind : TokenKind
  content : Content
  aliases : List String
  cached : Option Text

/-- The tokens that were made, with the latest one first. A token is called by the number of those
that were made before it. -/
abbrev Store := List Cell

namespace Store

/-- A token of a store as a tree, with the tokens in its content as they are now. -/
def token : Store → Nat → Tree
  | [], _ => .text []
  | cell :: older, id =>
    if id = older.length then
      .token cell.kind (cell.content.tree (token older)) cell.aliases cell.cached
    else token older id

/-- The store after a token was asked for its source text. -/
def read : Store → Nat → Store
  | [], _ => []
  | cell :: older, id =>
    if id = older.length then
      { cell with cached := some (token (cell :: older) id).source } :: older
    else cell :: read older id

end Store

/-- What a program does with tokens. Putting a token into a set asks it for its source text. -/
inductive Use where
  | make (kind : TokenKind) (content : Content) (aliases : List String) (raw : Option Text)
  | withContent (id : Nat) (content : Content)
  | read (id : Nat)

/-- The tokens that are used. -/
def Use.ids : Use → List Nat
  | .make _ content _ _ => content.ids
  | .withContent id content => id :: content.ids
  | .read id => [id]

/-- Whether a token is only asked for its source text. -/
def Use.isRead : Use → Bool
  | .read _ => true
  | _ => false

/-- Some uses without those that only ask for source texts. -/
def unread (uses : List Use) : List Use := uses.filter (!·.isRead)

namespace Store

/-- The store after a use. If a token is used that is not there, nothing happens. -/
def after (store : Store) (use : Use) : Store :=
  if ∀ id ∈ use.ids, id < store.length then
    match use with
    | .make kind content aliases raw => ⟨kind, content, aliases, raw⟩ :: store
    | .withContent id content =>
      match token store id with
      | .token kind _ aliases cached => ⟨kind, content, aliases, cached⟩ :: store
      | _ => store
    | .read id => read store id
  else store

/-- The store after some uses. -/
def run (store : Store) (uses : List Use) : Store := uses.foldl after store

/-- The first of some uses happens first. -/
theorem run_cons (store : Store) (use : Use) (uses : List Use) :
    run store (use :: uses) = run (after store use) uses :=
  List.foldl_cons ..

/-- Uses happen one after the other. -/
theorem run_append (store : Store) (uses more : List Use) :
    run store (uses ++ more) = run (run store uses) more :=
  List.foldl_append

/-! ## What is made -/

/-- The latest token of a store. -/
theorem token_latest (cell : Cell) (older : Store) :
    token (cell :: older) older.length =
      .token cell.kind (cell.content.tree (token older)) cell.aliases cell.cached :=
  if_pos rfl

/-- The other tokens are as they were before. -/
theorem token_earlier (cell : Cell) {older : Store} {id : Nat} (other : id ≠ older.length) :
    token (cell :: older) id = token older id :=
  if_neg other

/-- What is called is a token if it was made. -/
theorem token_made {store : Store} {id : Nat} (made : id < store.length) :
    ∃ kind content aliases cached, token store id = .token kind content aliases cached := by
  induction store with
  | nil => cases made
  | cons cell older inductionHypothesis =>
    by_cases latest : id = older.length
    · subst latest
      exact ⟨_, _, _, _, token_latest cell older⟩
    · rw [token_earlier cell latest]
      exact inductionHypothesis (Nat.lt_of_le_of_ne (Nat.le_of_lt_succ made) latest)

/-- A token that is copied with another content is the tree with that content. -/
theorem token_withContent {store : Store} {id : Nat} {content : Content} (made : id < store.length)
    (known : ∀ id ∈ content.ids, id < store.length) :
    token (after store (.withContent id content)) store.length =
      (token store id).withContent (content.tree (token store)) := by
  obtain ⟨kind, before, aliases, cached, found⟩ := token_made made
  have there : ∀ used ∈ (Use.withContent id content).ids, used < store.length :=
    List.forall_mem_cons.mpr ⟨made, known⟩
  simp only [after, if_pos there, found]
  exact token_latest ⟨kind, content, aliases, cached⟩ store

/-- Asking makes no token. -/
theorem length_read (store : Store) (id : Nat) : (read store id).length = store.length := by
  induction store with
  | nil => rfl
  | cons cell older inductionHypothesis =>
    rw [read]
    split
    · rfl
    · exact congrArg (· + 1) inductionHypothesis

/-- A token that was asked is the token with its source text written into it. -/
theorem token_read (store : Store) (id : Nat) : token (read store id) id = (token store id).remember := by
  induction store with
  | nil => rfl
  | cons cell older inductionHypothesis =>
    by_cases latest : id = older.length
    · subst latest
      rw [read, if_pos rfl, token_latest, token_latest]
      rfl
    · have other : id ≠ (read older id).length := by rwa [length_read]
      rw [read, if_neg latest, token_earlier cell latest, token_earlier cell other,
        inductionHypothesis]

/-- The tokens of a store that was asked cover the same as before, at every depth. -/
theorem rememberAll_read (store : Store) (asked id : Nat) :
    (token (read store asked) id).rememberAll = (token store id).rememberAll := by
  induction store generalizing id with
  | nil => rfl
  | cons cell older inductionHypothesis =>
    rw [read]
    split
    · by_cases latest : id = older.length
      · subst latest
        rename_i isLatest
        rw [isLatest, token_latest, token_latest]
        rfl
      · rw [token_earlier _ latest, token_earlier cell latest]
    · by_cases latest : id = older.length
      · subst latest
        have inAsked := token_latest cell (read older asked)
        rw [length_read] at inAsked
        rw [inAsked, token_latest]
        exact Tree.rememberAll_token _ _ _
          (cell.content.rememberAll_tree fun id _ => inductionHypothesis id)
      · have other : id ≠ (read older asked).length := by rwa [length_read]
        rw [token_earlier cell latest, token_earlier cell other, inductionHypothesis]

/-- A use asks a token, makes one, or does nothing. -/
theorem after_cases (store : Store) (use : Use) :
    (∃ id, after store use = read store id) ∨ (∃ cell, after store use = cell :: store) ∨
      after store use = store := by
  unfold after
  split
  · cases use with
    | read id => exact .inl ⟨id, rfl⟩
    | make kind content aliases raw => exact .inr (.inl ⟨_, rfl⟩)
    | withContent id content =>
      dsimp only
      split
      · exact .inr (.inl ⟨_, rfl⟩)
      · exact .inr (.inr rfl)
  · exact .inr (.inr rfl)

/-- A token that was made stays, and covers the same at every depth. -/
theorem after_keeps (store : Store) (use : Use) {id : Nat} (made : id < store.length) :
    id < (after store use).length ∧
      (token (after store use) id).rememberAll = (token store id).rememberAll := by
  obtain ⟨asked, same⟩ | ⟨cell, same⟩ | same := after_cases store use
  · rw [same, length_read]
    exact ⟨made, rememberAll_read store asked id⟩
  · rw [same, token_earlier cell (Nat.ne_of_lt made)]
    exact ⟨Nat.lt_succ_of_lt made, rfl⟩
  · rw [same]
    exact ⟨made, rfl⟩

/-- So it is after some uses. -/
theorem run_keeps (store : Store) (uses : List Use) {id : Nat} (made : id < store.length) :
    id < (run store uses).length ∧
      (token (run store uses) id).rememberAll = (token store id).rememberAll := by
  induction uses generalizing store with
  | nil => exact ⟨made, rfl⟩
  | cons use uses inductionHypothesis =>
    obtain ⟨stays, same⟩ := after_keeps store use made
    obtain ⟨stays', same'⟩ := inductionHypothesis (after store use) stays
    exact ⟨stays', same'.trans same⟩

/-! ## Reads do not change tokens -/

/-- Two stores have equal tokens. -/
structure SameTokens (store other : Store) : Prop where
  length : store.length = other.length
  bare : ∀ id, (token store id).bare = (token other id).bare

/-- A content has the same leaves with equal tokens. -/
theorem SameTokens.leafText_tree {store other : Store} (same : SameTokens store other)
    (content : Content) :
    (content.tree (token store)).leafText = (content.tree (token other)).leafText := by
  rw [← Tree.leafText_bare, content.bare_tree fun id _ => same.bare id, Tree.leafText_bare]

/-- A store has the tokens that it has. -/
theorem SameTokens.refl (store : Store) : SameTokens store store := ⟨rfl, fun _ => rfl⟩

/-- It does not matter which store is named first. -/
theorem SameTokens.symm {store other : Store} (same : SameTokens store other) :
    SameTokens other store :=
  ⟨same.length.symm, fun id => (same.bare id).symm⟩

/-- Stores have equal tokens if both have those of a third. -/
theorem SameTokens.trans {store other third : Store} (same : SameTokens store other)
    (same' : SameTokens other third) : SameTokens store third :=
  ⟨same.length.trans same'.length, fun id => (same.bare id).trans (same'.bare id)⟩

/-- A store that was asked has equal tokens. -/
theorem SameTokens.read {store other : Store} (same : SameTokens store other) (id : Nat) :
    SameTokens (store.read id) other where
  length := (length_read store id).trans same.length
  bare other := (Tree.bare_of_rememberAll (rememberAll_read store id other)).trans (same.bare other)

/-- So it has if the token is not there. -/
theorem SameTokens.afterRead {store other : Store} (same : SameTokens store other) (id : Nat) :
    SameTokens (store.after (.read id)) other := by
  unfold Store.after
  split
  · exact same.read id
  · exact same

/-- Stores have equal tokens after a token was made in both of them. -/
theorem SameTokens.make {store other : Store} (same : SameTokens store other) (kind : TokenKind)
    (content : Content) (aliases : List String) (cached cached' : Option Text) :
    SameTokens (⟨kind, content, aliases, cached⟩ :: store)
      (⟨kind, content, aliases, cached'⟩ :: other) where
  length := congrArg (· + 1) same.length
  bare id := by
    by_cases latest : id = store.length
    · have latest' := latest.trans same.length
      rw [token, token, if_pos latest, if_pos latest', Tree.bare, Tree.bare,
        content.bare_tree fun id _ => same.bare id]
    · have earlier : id ≠ other.length := same.length ▸ latest
      rw [token_earlier _ latest, token_earlier _ earlier, same.bare id]

/-- Stores with equal tokens have equal tokens after a use. -/
theorem SameTokens.after {store other : Store} (same : SameTokens store other) (use : Use) :
    SameTokens (store.after use) (other.after use) := by
  unfold Store.after
  rw [same.length]
  split
  · cases use with
    | read id => exact ((same.read id).symm.read id).symm
    | make kind content aliases raw => exact same.make kind content aliases raw raw
    | withContent id content =>
      have equal := same.bare id
      cases found : token store id <;> cases found' : token other id <;>
        simp only [found, found', Tree.bare, Tree.token.injEq, reduceCtorEq] at equal ⊢
      · exact same
      · obtain ⟨rfl, -, rfl, -⟩ := equal
        exact same.make _ content _ _ _
      · exact same
  · exact same

/-- Stores with equal tokens have equal tokens after the same uses, with reads or without. -/
theorem SameTokens.unread {store other : Store} (same : SameTokens store other)
    (uses : List Use) : SameTokens (store.run uses) (other.run (unread uses)) := by
  induction uses generalizing store other with
  | nil => exact same
  | cons use uses inductionHypothesis =>
    cases use with
    | read id =>
      have skipped : Tokens.unread (.read id :: uses) = Tokens.unread uses := rfl
      rw [skipped]
      exact inductionHypothesis (same.afterRead id)
    | make kind content aliases raw => exact inductionHypothesis (same.after _)
    | withContent id content => exact inductionHypothesis (same.after _)

/-- Stores have equal tokens if their histories differ in reads only. -/
theorem sameTokens_run {uses others : List Use} (differ : unread others = unread uses) :
    SameTokens (run [] others) (run [] uses) := by
  have first := (SameTokens.refl []).unread others
  have second := (SameTokens.refl []).unread uses
  rw [differ] at first
  exact first.trans second.symm

end Store

end Tokens

end TemplHighlight
