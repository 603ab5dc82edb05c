import TemplHighlight.Proofs.Split.Origins
import TemplHighlight.Proofs.TagBody.Blocks

/-!
# What marking keeps

Marking puts two things into a list: items that were there, with their own lists marked, and
plain-text tokens. So a token behind it is one of plain text, or it covers the same text under the
same kind and aliases as a token in front of it; and where nothing was lost in the items, nothing
is lost in what marking makes of them. Items in which there is no opening tag are left as they are.
-/

namespace TemplHighlight.TagBody

/-! ## Items that do not change -/

/-- Marking a list changes nothing if none of its items is an opening tag or changes when it is
kept. -/
theorem mark_of_kept {items : List Tree} (closed : ∀ item ∈ items, isOpening item = false)
    (same : ∀ item ∈ items, kept item = item) : mark items = items := by
  rw [mark_runs]
  induction items with
  | nil => rfl
  | cons item items inductionHypothesis =>
    obtain ⟨closedFirst, closedLater⟩ := List.forall_mem_cons.mp closed
    obtain ⟨sameFirst, sameLater⟩ := List.forall_mem_cons.mp same
    have behind : runs [] none items = items := inductionHypothesis closedLater sameLater
    simp only [runs, stackAfter?_closed closedFirst, sameFirst, behind]
    rfl

/-- An item without a list of its own is no tag. -/
theorem head?_flat {item : Tree} (flat : item.isNested = false) : head? item = none := by
  unfold head?
  split
  · cases flat
  · rfl

/-- So it is no opening tag. -/
theorem isOpening_flat {item : Tree} (flat : item.isNested = false) : isOpening item = false := by
  rw [isOpening, head?_flat flat]
  rfl

/-- Marking items without lists of their own changes nothing. -/
theorem mark_flat {items : List Tree} (flat : ∀ item ∈ items, item.isNested = false) :
    mark items = items :=
  mark_of_kept (fun item listed => isOpening_flat (flat item listed))
    fun item listed => kept_flat (flat item listed)

/-! ## Properties of all items -/

variable {good : Tree → Prop} {items : List Tree}

/-- All items behind merging have a property, if kept items have it and so have the plain-text
tokens of texts that are joined of the texts of items. -/
theorem runs_forall {clean : Text → Prop}
    (joins : ∀ front back, clean front → clean back → clean (front ++ back))
    (merged : ∀ text, clean text → good (plainText text))
    (each : ∀ item ∈ items, clean item.source ∧ good (kept item)) (stack : List OpenTag)
    (run : Option Text) (opened : ∀ text ∈ run, clean text) :
    ∀ item ∈ runs stack run items, good item := by
  have closed (run : Option Text) (opened : ∀ text ∈ run, clean text) :
      ∀ item ∈ closeRun run, good item := by
    cases run with
    | none => exact List.forall_mem_nil _
    | some text => exact List.forall_mem_singleton.mpr (merged text (opened text rfl))
  induction items generalizing stack run with
  | nil => exact closed run opened
  | cons item items inductionHypothesis =>
    obtain ⟨first, later⟩ := List.forall_mem_cons.mp each
    rw [runs]
    split
    · refine List.forall_mem_append.mpr ⟨closed run opened,
        List.forall_mem_cons.mpr ⟨first.2, inductionHypothesis later _ none ?_⟩⟩
      intro text isRun
      cases isRun
    · refine inductionHypothesis later _ _ ?_
      rintro text ⟨⟩
      cases run with
      | none => exact first.1
      | some before => exact joins before _ (opened before rfl) first.1

/-- The same of all items of a marked list. -/
theorem mark_forall (clean : Text → Prop)
    (joins : ∀ front back, clean front → clean back → clean (front ++ back))
    (merged : ∀ text, clean text → good (plainText text))
    (each : ∀ item ∈ items, clean item.source ∧ good (kept item)) :
    ∀ item ∈ mark items, good item := by
  rw [mark_runs]
  apply runs_forall joins merged each [] none
  intro text isRun
  cases isRun

/-! ## Nothing is lost -/

/-- An item that is kept is without loss if it was so before. -/
theorem lossless_kept {item : Tree} (lossless : item.Lossless) : (kept item).Lossless := by
  induction item using Tree.nested_induction with
  | flat item flat => rwa [kept_flat flat]
  | nested kind items aliases cached inductionHypothesis =>
    cases lossless with
    | @nested _ _ _ text filled covers parts each =>
      have sourceCarried : carriedBy (.token kind (.list items) aliases (some text)) (some text) =
          some text := by
        unfold carriedBy
        split
        · split <;> rfl
        · rfl
      have markCovers : Tree.sources (mark items) = text := (sources_mark items).trans covers
      have inner : ∀ item ∈ mark items, item.Lossless := by
        refine mark_forall (· ≠ []) ?_ (fun text filled => .leaf filled) ?_
        · exact fun front back filled _ => List.append_ne_nil_of_left_ne_nil filled back
        · exact fun item listed =>
            ⟨(each item listed).source_filled, inductionHypothesis item listed (each item listed)⟩
      rw [kept_nested, sourceCarried]
      refine .nested filled markCovers ?_ inner
      intro none
      rw [none] at markCovers
      exact filled markCovers.symm

/-- Marking items without loss leaves items without loss. -/
theorem lossless_mark (lossless : ∀ item ∈ items, item.Lossless) :
    ∀ item ∈ mark items, item.Lossless := by
  refine mark_forall (· ≠ []) ?_ (fun text filled => .leaf filled) ?_
  · exact fun front back filled _ => List.append_ne_nil_of_left_ne_nil filled back
  · exact fun item listed => ⟨(lossless item listed).source_filled, lossless_kept (lossless item listed)⟩

/-- What covers a text covers it when it is marked. -/
theorem covers_mark {text : Text} (covers : Split.Covers text items) :
    Split.Covers text (mark items) :=
  ⟨(sources_mark items).trans covers.sources, lossless_mark covers.lossless⟩

/-! ## The tokens behind marking -/

/-- A token is of plain text, or it has the kind, the aliases and the text of a token with a
property. -/
inductive Stems (original : Tree → Prop) : Tree → Prop where
  | plain (text : Text) : Stems original (plainText text)
  | kept {kind : TokenKind} {content content' : Tree} {aliases : List String}
      {cached cached' : Option Text} (has : original (.token kind content aliases cached))
      (same : (Tree.token kind content' aliases cached').source =
        (Tree.token kind content aliases cached).source) :
      Stems original (.token kind content' aliases cached')

/-- All tokens that are inside of a tree stem from tokens with a property. -/
def AllStem (original : Tree → Prop) (tree : Tree) : Prop :=
  ∀ token, token.isToken = true → token.Inside tree → Stems original token

/-- There is one token in a plain-text token. -/
theorem allStem_plainText (original : Tree → Prop) (text : Text) :
    AllStem original (plainText text) := by
  intro token isToken inside
  rcases inside.of_token with rfl | inContent
  · exact .plain text
  · rw [inContent.of_text] at isToken
    cases isToken

/-- All the tokens of an item that is kept stem from the tokens of the item. -/
theorem allStem_kept {original : Tree → Prop} {item : Tree}
    (has : ∀ token, token.isToken = true → token.Inside item → original token) :
    AllStem original (kept item) := by
  induction item using Tree.nested_induction with
  | flat item flat =>
    rw [kept_flat flat]
    intro token isToken inside
    cases token with
    | token kind content aliases cached => exact .kept (has _ isToken inside) rfl
    | text | list => cases isToken
  | nested kind items aliases cached inductionHypothesis =>
    have source := source_kept (.token kind (.list items) aliases cached)
    have inner : ∀ item ∈ mark items, AllStem original item := by
      refine mark_forall (fun _ => True) (fun _ _ _ _ => trivial)
        (fun text _ => allStem_plainText original text) ?_
      exact fun item listed => ⟨trivial, inductionHypothesis item listed fun token isToken inside =>
        has token isToken (.content (.item listed inside))⟩
    rw [kept_nested] at source ⊢
    intro token isToken inside
    rcases inside.of_token with rfl | inContent
    · exact .kept (has _ rfl .here) source
    rcases inContent.of_list with rfl | ⟨item, listed, inItem⟩
    · cases isToken
    · exact inner item listed token isToken inItem

/-- Every token behind marking, at every depth, is of plain text or has the kind, the aliases and
the text of a token that was there before. -/
theorem stems_of_mark {token : Tree} (isToken : token.isToken = true)
    (among : token.Among (mark items)) :
    Stems (fun original => original.isToken = true ∧ original.Among items) token := by
  obtain ⟨item, listed, inside⟩ := among
  have each : ∀ item ∈ mark items,
      AllStem (fun original => original.isToken = true ∧ original.Among items) item := by
    refine mark_forall (fun _ => True) (fun _ _ _ _ => trivial)
      (fun text _ => allStem_plainText _ text) ?_
    exact fun item listed =>
      ⟨trivial, allStem_kept fun token isToken inside => ⟨isToken, item, listed, inside⟩⟩
  exact each item listed token isToken inside

end TemplHighlight.TagBody
