import TemplHighlight.Proofs.Token.Store

/-!
# Hashing of tokens

Tokens are equal if their kinds, contents and aliases are, but they are hashed by their source text,
which a token may carry. So equal tokens are hashed alike as long as no token carries another text
than its content has. That is up to what a program does: it may give a source text to a token that
it makes, and it may copy a token, which then has the text of the token that was copied if that one
was asked before. If both are done with the right texts only, then equal tokens are hashed alike and
it does not matter when they are asked; and if not, some order of reads tells equal tokens apart.
-/

namespace TemplHighlight.Tokens

open Store

/-! ## Texts that are kept -/

/-- A use keeps texts: a source text that is given to a token is the text of its content, and a token
is copied with a content of the same text. -/
def Use.Keeps (store : Store) (use : Use) : Prop :=
  (∀ id ∈ use.ids, id < store.length) →
    match use with
    | .make _ content _ (some raw) => raw = (content.tree (token store)).leafText
    | .withContent id content =>
      (content.tree (token store)).leafText = (token store id).leafText
    | _ => True

/-- Each of some uses keeps texts, one after the other. -/
def KeepsTexts (store : Store) : List Use → Prop
  | [] => True
  | use :: uses => use.Keeps store ∧ KeepsTexts (store.after use) uses

/-- All tokens of a store cover the texts of their leaves. -/
def CoversLeaves (store : Store) : Prop := ∀ id, (token store id).source = (token store id).leafText

variable {store other : Store}

/-- A token that carries no other text than that of its content covers its leaves like the others. -/
theorem CoversLeaves.make (covers : CoversLeaves store) (cell : Cell)
    (given : ∀ raw, cell.cached = some raw → raw = (cell.content.tree (token store)).leafText) :
    CoversLeaves (cell :: store) := by
  intro id
  by_cases latest : id = store.length
  · subst latest
    rw [token_latest]
    cases cached : cell.cached with
    | some raw => exact given raw cached
    | none => exact cell.content.source_tree fun id _ => covers id
  · rw [token_earlier cell latest]
    exact covers id

/-- Tokens cover their leaves when some token was asked. -/
theorem CoversLeaves.read (covers : CoversLeaves store) (id : Nat) :
    CoversLeaves (store.read id) := by
  intro other
  have remembered := rememberAll_read store id other
  rw [← Tree.source_rememberAll, remembered, Tree.source_rememberAll, covers other,
    ← Tree.leafText_bare, ← Tree.bare_of_rememberAll remembered, Tree.leafText_bare]

/-- They do after a use that keeps texts. -/
theorem CoversLeaves.after (covers : CoversLeaves store) {use : Use} (keeps : use.Keeps store) :
    CoversLeaves (store.after use) := by
  unfold Store.after
  split
  · rename_i known
    have kept := keeps known
    cases use with
    | read id => exact covers.read id
    | make kind content aliases raw =>
      refine covers.make _ fun text given => ?_
      cases given
      exact kept
    | withContent id content =>
      dsimp only
      split
      · rename_i kind before aliases cached found
        refine covers.make _ fun text given => ?_
        have carried : (token store id).source = text := by
          cases given
          rw [found, Tree.source]
        exact carried.symm.trans ((covers id).trans kept.symm)
      · exact covers
  · exact covers

/-- They do after uses that keep texts. -/
theorem CoversLeaves.run (covers : CoversLeaves store) {uses : List Use}
    (keeps : KeepsTexts store uses) : CoversLeaves (store.run uses) := by
  induction uses generalizing store with
  | nil => exact covers
  | cons use uses inductionHypothesis => exact inductionHypothesis (covers.after keeps.1) keeps.2

/-- Without tokens there is nothing to cover. -/
theorem coversLeaves_empty : CoversLeaves [] := fun _ => rfl

/-! ## Texts and reads -/

/-- Whether a use keeps texts does not depend on what tokens carry. -/
theorem Use.keeps_iff (use : Use) (same : SameTokens store other) :
    use.Keeps store ↔ use.Keeps other := by
  have leaf (id : Nat) : (token store id).leafText = (token other id).leafText :=
    same.leafText_tree (.token id)
  unfold Use.Keeps
  rw [same.length]
  cases use with
  | read id => rfl
  | make kind content aliases raw => cases raw <;> simp only [same.leafText_tree]
  | withContent id content => simp only [same.leafText_tree, leaf]

/-- Whether some uses keep texts does not depend on the reads among them. -/
theorem keepsTexts_unread (same : SameTokens store other) (uses : List Use) :
    KeepsTexts store uses ↔ KeepsTexts other (unread uses) := by
  induction uses generalizing store other with
  | nil => rfl
  | cons use uses inductionHypothesis =>
    cases use with
    | read id =>
      have free : (Use.read id).Keeps store := fun _ => trivial
      exact (and_iff_right free).trans (inductionHypothesis (same.afterRead id))
    | make kind content aliases raw =>
      exact and_congr (Use.keeps_iff _ same) (inductionHypothesis (same.after _))
    | withContent id content =>
      exact and_congr (Use.keeps_iff _ same) (inductionHypothesis (same.after _))

/-- So it is the same for histories that differ in reads only. -/
theorem keepsTexts_of_unread {uses others : List Use} (differ : unread others = unread uses) :
    KeepsTexts [] others ↔ KeepsTexts [] uses := by
  rw [keepsTexts_unread (.refl []) others, differ, ← keepsTexts_unread (.refl []) uses]

/-! ## Equal hashes -/

/-- Equal tokens of a store are hashed alike, so a set takes them for one. -/
def HashesAlike (store : Store) : Prop :=
  ∀ a b, (token store a).same (token store b) = true →
    (token store a).hashKey? = (token store b).hashKey? ∧
      (token store a).distinctCount (token store b) = 1

/-- Equal tokens are hashed alike if all tokens cover the texts of their leaves. -/
theorem CoversLeaves.hashesAlike (covers : CoversLeaves store) : HashesAlike store := by
  intro a b equal
  have hashes := Tree.hashKey?_of_same equal (covers a) (covers b)
  refine ⟨hashes, ?_⟩
  rw [Tree.distinctCount, equal, hashes]
  simp

/-- Two tokens that are made of what covers the same are equal. If one carries a source text and the
other does not, then they are hashed alike only if that is the text of the content. -/
theorem given_of_hashKey? {kind : TokenKind} {aliases : List String} {raw : Text}
    {content content' token : Tree} (contents : content'.rememberAll = content.rememberAll)
    (carries : token.rememberAll = (Tree.token kind content aliases (some raw)).rememberAll) :
    token.same (.token kind content' aliases none) = true ∧
      (token.hashKey? = (Tree.token kind content' aliases none).hashKey? → raw = content.source) := by
  constructor
  · rw [Tree.same_iff, Tree.bare_of_rememberAll carries, Tree.bare, Tree.bare,
      Tree.bare_of_rememberAll contents]
  · intro hashes
    rw [← Tree.hashKey?_rememberAll, carries, Tree.hashKey?_rememberAll] at hashes
    have texts : raw = content'.source := congrArg Tree.HashKey.source (Option.some.inj hashes)
    rw [texts, ← Tree.source_rememberAll, contents, Tree.source_rememberAll]

/-- A token that carries another text than that of its content is equal to one that is made later
from the same content, and they are not hashed alike. -/
theorem not_hashesAlike_of_given (covers : CoversLeaves store) {kind : TokenKind}
    {content : Content} {aliases : List String} {raw : Text}
    (known : ∀ id ∈ content.ids, id < store.length)
    (given : raw ≠ (content.tree (token store)).leafText) (uses : List Use) :
    ¬ HashesAlike (run (⟨kind, content, aliases, some raw⟩ :: store)
      (uses ++ [.make kind content aliases none])) := by
  intro alike
  set first : Store := ⟨kind, content, aliases, some raw⟩ :: store with isFirst
  have madeFirst : store.length < first.length := Nat.lt_succ_self _
  obtain ⟨stays, carries⟩ := run_keeps first uses madeFirst
  have contents : (content.tree (token (first.run uses))).rememberAll =
      (content.tree (token store)).rememberAll := by
    refine content.rememberAll_tree fun id used => ?_
    have earlier := known id used
    rw [(run_keeps first uses (Nat.lt_trans earlier madeFirst)).2, isFirst,
      token_earlier _ (Nat.ne_of_lt earlier)]
  have last : first.run (uses ++ [.make kind content aliases none]) =
      ⟨kind, content, aliases, none⟩ :: first.run uses := by
    rw [run_append]
    exact if_pos fun id used => Nat.lt_trans (known id used) stays
  rw [isFirst, token_latest, ← isFirst] at carries
  obtain ⟨equal, hashed⟩ := given_of_hashKey? contents carries
  have both := alike store.length (first.run uses).length
  rw [last, token_latest, token_earlier _ (Nat.ne_of_lt stays)] at both
  rw [hashed (both equal).1] at given
  exact given (content.source_tree fun id _ => covers id)

/-- Among uses that do not all keep texts, there is a first one that does not. -/
theorem exists_first_break {uses : List Use} (breaks : ¬ KeepsTexts store uses) :
    ∃ front use back, uses = front ++ use :: back ∧ KeepsTexts store front ∧
      ¬ use.Keeps (store.run front) := by
  induction uses generalizing store with
  | nil => exact absurd trivial breaks
  | cons use uses inductionHypothesis =>
    by_cases keeps : use.Keeps store
    · obtain ⟨front, broken, back, rfl, kept, breaks'⟩ :=
        inductionHypothesis fun later => breaks ⟨keeps, later⟩
      exact ⟨use :: front, broken, back, rfl, ⟨keeps, kept⟩, breaks'⟩
    · exact ⟨[], use, uses, rfl, trivial, keeps⟩

/-- A token that was asked is copied with the source text that it had. -/
theorem after_read_withContent {id : Nat} {content : Content} (made : id < store.length)
    (known : ∀ id ∈ content.ids, id < store.length) :
    ∃ kind aliases, (store.read id).after (.withContent id content) =
      ⟨kind, content, aliases, some (token store id).source⟩ :: store.read id := by
  obtain ⟨kind, before, aliases, cached, found⟩ := token_made made
  have asked : token (store.read id) id =
      .token kind before aliases (some (token store id).source) := by
    rw [token_read, found]
    rfl
  have there : ∀ used ∈ (Use.withContent id content).ids, used < (store.read id).length := by
    rw [length_read]
    exact List.forall_mem_cons.mpr ⟨made, known⟩
  refine ⟨kind, aliases, ?_⟩
  simp only [Store.after, if_pos there, asked]

/-- If a use does not keep texts, then some order of reads tells equal tokens apart, one of which is
made later. -/
theorem exists_reads_of_break {front back : List Use} {use : Use} (kept : KeepsTexts [] front)
    (breaks : ¬ use.Keeps (run [] front)) :
    ∃ others, unread others = unread (front ++ use :: back) ∧ ∃ kind content aliases,
      ¬ HashesAlike (run [] (others ++ [.make kind content aliases none])) := by
  have covers : CoversLeaves (run [] front) := coversLeaves_empty.run kept
  unfold Use.Keeps at breaks
  rw [Classical.not_imp] at breaks
  obtain ⟨known, breaks⟩ := breaks
  cases use with
  | read id => exact absurd trivial breaks
  | make kind content aliases raw =>
    cases raw with
    | none => exact absurd trivial breaks
    | some raw =>
      refine ⟨front ++ .make kind content aliases (some raw) :: back, rfl, kind, content, aliases, ?_⟩
      have made : (run [] front).after (.make kind content aliases (some raw)) =
          ⟨kind, content, aliases, some raw⟩ :: run [] front := if_pos known
      rw [List.append_assoc, run_append, List.cons_append, run_cons, made]
      exact not_hashesAlike_of_given covers known breaks back
  | withContent id content =>
    obtain ⟨made, inContent⟩ := List.forall_mem_cons.mp known
    obtain ⟨kind, aliases, copied⟩ := after_read_withContent made inContent
    refine ⟨front ++ .read id :: .withContent id content :: back, ?_, kind, content, aliases, ?_⟩
    · simp [unread, Use.isRead]
    · have asked : (run [] front).after (.read id) = (run [] front).read id :=
        if_pos fun used isRead => List.mem_singleton.mp isRead ▸ made
      rw [List.append_assoc, run_append, List.cons_append, List.cons_append, run_cons, run_cons,
        asked, copied]
      refine not_hashesAlike_of_given (covers.read id) (by rwa [length_read]) ?_ back
      rw [covers id, ((SameTokens.refl _).read id).leafText_tree content]
      exact fun same => breaks same.symm

/-- Equal tokens are hashed alike, and it does not matter when they are asked, as long as texts are
kept. Reads never decide whether tokens are equal: histories that differ in reads only have equal
tokens, and a copy of a token is among them. If each source text that is given to a token is the text
of its content, and each token is copied with a content of the same text, then equal tokens are
hashed alike in every such history, a set takes them for one, and each token has the same hashed
values in all of them. And only then: if texts are not kept somewhere, then there is a history that
differs in reads only, and a token to be made at its end, such that two equal tokens are not hashed
alike.

Proof: a token that is asked stays what it is, wherever it stands, since the text that is written
into it is the text that it covers. As long as texts are kept, every token covers the text of its
leaves, which equal tokens have in common. The first use that does not keep texts makes a token that
carries another text than that of its content, if need be because the token it was copied from was
asked before; it keeps that text whatever happens, and a token that is made of the same content does
not have it. -/
theorem hashed_alike (uses : List Use) :
    (∀ others, unread others = unread uses → ∀ a b,
      (token (run [] others) a).same (token (run [] uses) a) = true ∧
        (token (run [] others) a).same (token (run [] others) b) =
          (token (run [] uses) a).same (token (run [] uses) b)) ∧
    (KeepsTexts [] uses → ∀ others, unread others = unread uses →
      HashesAlike (run [] others) ∧
        ∀ id, (token (run [] others) id).hashKey? = (token (run [] uses) id).hashKey?) ∧
    (KeepsTexts [] uses ↔ ∀ others, unread others = unread uses → ∀ kind content aliases,
      HashesAlike (run [] (others ++ [.make kind content aliases none]))) := by
  refine ⟨fun others differ a b => ?_, fun keeps others differ => ?_, fun keeps others differ => ?_,
    fun alike => ?_⟩
  · have same := sameTokens_run differ
    refine ⟨(Tree.same_iff _ _).mpr (same.bare a), ?_⟩
    rw [Bool.eq_iff_iff, Tree.same_iff, Tree.same_iff, same.bare a, same.bare b]
  · have covers := coversLeaves_empty.run keeps
    have covers' := coversLeaves_empty.run ((keepsTexts_of_unread differ).mpr keeps)
    exact ⟨covers'.hashesAlike, fun id => Tree.hashKey?_of_same
      ((Tree.same_iff _ _).mpr ((sameTokens_run differ).bare id)) (covers' id) (covers id)⟩
  · intro kind content aliases
    have covers := coversLeaves_empty.run ((keepsTexts_of_unread differ).mpr keeps)
    rw [run_append]
    have free : KeepsTexts (run [] others) [.make kind content aliases none] :=
      ⟨fun _ => trivial, trivial⟩
    exact (covers.run free).hashesAlike
  · by_contra breaks
    obtain ⟨front, use, back, rfl, kept, broken⟩ := exists_first_break breaks
    obtain ⟨others, differ, kind, content, aliases, unalike⟩ := exists_reads_of_break kept broken
    exact unalike (alike others differ kind content aliases)

/-- A copy that carries the source text of the token it was copied from, and a token that carries
none. -/
theorem hashed_alike_copied :
    let store := run [] [.make .string (.list [.text ['a'], .text ['b']]) [] none, .read 0,
      .withContent 0 (.text ['a', 'b']), .make .string (.text ['a', 'b']) [] none]
    (token store 1).same (token store 2) = true ∧
      (token store 1).hashKey? = (token store 2).hashKey? ∧
      (token store 1).distinctCount (token store 2) = 1 := by
  intro store
  have keeps : KeepsTexts [] [.make .string (.list [.text ['a'], .text ['b']]) [] none, .read 0,
      .withContent 0 (.text ['a', 'b']), .make .string (.text ['a', 'b']) [] none] :=
    ⟨fun _ => trivial, fun _ => trivial, fun _ => rfl, fun _ => trivial, trivial⟩
  have equal : (token store 1).same (token store 2) = true := rfl
  exact ⟨equal, ((hashed_alike _).2.1 keeps _ rfl).1 1 2 equal⟩

/-- A token that is given another text than that of its content is a second element of a set. -/
example :
    let store := run [] [.make .keyword (.text ['x']) [] (some ['y']),
      .make .keyword (.text ['x']) [] none]
    (token store 0).same (token store 1) = true ∧
      (token store 0).distinctCount (token store 1) = 2 := by decide

end TemplHighlight.Tokens
