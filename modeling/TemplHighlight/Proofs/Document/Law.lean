import TemplHighlight.Proofs.Document.Layout
import TemplHighlight.Proofs.Registry.Shipped
import TemplHighlight.Proofs.TagBody.Kept

/-!
# The law of documents

What highlighting makes of a document. The tokens along the document are known; it remains to follow
marking over them. A group leaves the stack of open tags as it found it, and so does an element,
whatever the stack is: so the part behind it is marked like the part in front of it. What is marked
in an element up to the next tag or brace is a piece, and becomes one plain-text token.
-/

namespace TemplHighlight.Document

open Split TagBody TagLanguage Templ
open Registry (highlight_installed)

/-- How a piece is shown: directly in an element by one plain-text token, and elsewhere by items
that are neither tags nor plain text. -/
inductive ShowsPiece : (inElement : Bool) → Text → List Tree → Prop where
  | inElement (text : Text) : ShowsPiece true text [plainText text]
  | elsewhere {text : Text} {items : List Tree} (shown : LooseText text items) :
      ShowsPiece false text items

/-! ## Items that marking does not change -/

/-- A loose item has no list of its own. -/
theorem flat_loose {item : Tree} (loose : Loose item) : item.isNested = false := by
  cases loose <;> rfl

/-- A token that carries its source is kept as it is if marking its list changes nothing. -/
theorem kept_of_mark {items : List Tree} (same : mark items = items) (kind : TokenKind)
    (aliases : List String) (raw : Text) :
    kept (.token kind (.list items) aliases (some raw)) =
      .token kind (.list items) aliases (some raw) := by
  rw [kept_nested, same]
  unfold carriedBy
  split
  · split <;> rfl
  · rfl

/-- The token of a tag is kept as it is. -/
theorem kept_showsTag {closing : Bool} {name : Run Tag.isNameChar} {token : Tree}
    (shows : ShowsTag closing name token) : kept token = token := by
  cases shows with
  | token parts loose named =>
    have flat : ∀ part ∈ Tree.token .punctuation (.text (tagMark closing)) []
        (some (tagMark closing)) :: parts, part.isNested = false :=
      List.forall_mem_cons.mpr ⟨rfl, fun part member => flat_loose (loose part member)⟩
    have nameSame := mark_of_kept (fun part member => isOpening_flat (flat part member))
      fun part member => kept_flat (flat part member)
    refine kept_of_mark (mark_of_kept ?_ ?_) .tag [] (tagText closing name)
    · exact List.forall_mem_cons.mpr ⟨rfl, List.forall_mem_singleton.mpr rfl⟩
    · exact List.forall_mem_cons.mpr ⟨kept_of_mark nameSame .tagName [] _,
        List.forall_mem_singleton.mpr (kept_flat rfl)⟩

/-! ## What the stack makes of the items -/

variable {stack : List OpenTag} {more : List Tree}

/-- The token of a tag is that of its derivation. -/
theorem tagToken_of_shows {closing : Bool} {name : Run Tag.isNameChar} {token : Tree}
    (shows : ShowsTag closing name token) : ∃ parts later, Tree.sources parts = name.chars ∧
      token = tagToken (bareTag 0 closing name) parts later := by
  cases shows with
  | token parts loose named =>
    refine ⟨parts, [.token .punctuation (.text ['>']) [] (some ['>'])], named, ?_⟩
    rw [tagToken, text_bareTag]
    rfl

/-- The token of a tag takes the stack to where it is behind the tag. -/
theorem stackAfter?_showsTag {closing : Bool} {name : Run Tag.isNameChar} {token : Tree}
    (shows : ShowsTag closing name token) (stack : List OpenTag) :
    stackAfter? stack token = some (stackBehind (bareTag 0 closing name) stack) := by
  obtain ⟨parts, later, named, rfl⟩ := tagToken_of_shows shows
  exact stackAfter?_tagToken (bareTag 0 closing name) named later stack

/-- An opening tag is put on top of the stack. -/
theorem stackBehind_opening (name : Run Tag.isNameChar) (stack : List OpenTag) :
    stackBehind (bareTag 0 false name) stack = ⟨name.chars, 0⟩ :: stack :=
  rfl

/-- The closing tag of the same name takes it away again. -/
theorem stackBehind_closing (name : Run Tag.isNameChar) (stack : List OpenTag) :
    stackBehind (bareTag 0 true name) (⟨name.chars, 0⟩ :: stack) = stack := by
  simp [stackBehind, bareTag, TagDerivation.name]

/-- Behind an opening brace nothing is directly in an element, and the closing brace takes the stack
back. -/
theorem stackAfter?_braces (stack : List OpenTag) :
    ∃ inner, stackAfter? stack (brace '{') = some inner ∧ inBody inner = false ∧
      stackAfter? inner (brace '}') = some stack := by
  cases stack with
  | nil => exact ⟨[], rfl, rfl, rfl⟩
  | cons top below => exact ⟨{ top with openBraces := top.openBraces + 1 } :: below, rfl, rfl, rfl⟩

/-- A loose item without marks leaves the stack alone. It is body text if it stands in a body. -/
theorem stackAfter?_loose {item : Tree} (loose : Loose item) (noMark : ∀ c ∈ item.source, c ∉ marks)
    (stack : List OpenTag) :
    stackAfter? stack item = if inBody stack then none else some stack := by
  have noBrace : afterBrace? item stack = none := by
    have other {c : Char} (isMark : c ∈ marks) : isPunctuation [c] item = false := by
      cases loose with
      | raw text => rfl
      | @token kind text aliases notTag notPlain =>
        cases kind <;> try rfl
        refine beq_eq_false_iff_ne.mpr ?_
        rintro rfl
        exact noMark c List.mem_cons_self isMark
    cases stack with
    | nil => rfl
    | cons top below =>
      simp [afterBrace?, other (by decide : '{' ∈ marks), other (by decide : '}' ∈ marks)]
  simp only [stackAfter?, head?_flat (flat_loose loose), noBrace]

/-! ## What marking makes of the items -/

/-- An item that is kept as it is stands for itself. -/
theorem runs_kept {item : Tree} {next : List OpenTag} (keeps : stackAfter? stack item = some next)
    (same : kept item = item) : runs stack none (item :: more) = item :: runs next none more := by
  simp only [runs, keeps, same]
  rfl

/-- Loose items without marks go on with the run if they stand in a body. -/
theorem runs_body (inside : inBody stack = true) {items : List Tree}
    (loose : ∀ item ∈ items, Loose item) (noMark : ∀ c ∈ Tree.sources items, c ∉ marks)
    (passed : List Tree) :
    runs stack (runOf passed) (items ++ more) = runs stack (runOf (passed ++ items)) more := by
  induction items generalizing passed with
  | nil => simp
  | cons item items inductionHypothesis =>
    obtain ⟨looseFirst, looseLater⟩ := List.forall_mem_cons.mp loose
    obtain ⟨noMarkFirst, noMarkLater⟩ := List.forall_mem_append.mp noMark
    have merges : stackAfter? stack item = none := by
      rw [stackAfter?_loose looseFirst noMarkFirst, if_pos inside]
    have longer : passed ++ item :: items = passed ++ [item] ++ items := by simp
    rw [List.cons_append, runs, merges, longer, ← inductionHypothesis looseLater noMarkLater,
      runOf_concat]

/-- They stay as they are if they stand elsewhere. -/
theorem runs_elsewhere (outside : inBody stack = false) {items : List Tree}
    (loose : ∀ item ∈ items, Loose item) (noMark : ∀ c ∈ Tree.sources items, c ∉ marks) :
    runs stack none (items ++ more) = items ++ runs stack none more := by
  induction items with
  | nil => rfl
  | cons item items inductionHypothesis =>
    obtain ⟨looseFirst, looseLater⟩ := List.forall_mem_cons.mp loose
    obtain ⟨noMarkFirst, noMarkLater⟩ := List.forall_mem_append.mp noMark
    have keeps : stackAfter? stack item = some stack := by
      rw [stackAfter?_loose looseFirst noMarkFirst, outside]
      rfl
    rw [List.cons_append, runs_kept keeps (kept_flat (flat_loose looseFirst)),
      inductionHypothesis looseLater noMarkLater]
    rfl

/-- A piece is shown by what marking makes of its loose items. -/
theorem runs_piece (part : Piece) {items : List Tree} (shown : LooseText part.text items)
    (starts : inBody stack = true → StartsKept stack more) :
    ∃ result, ShowsPiece (inBody stack) part.text result ∧
      runs stack none (items ++ more) = result ++ runs stack none more := by
  obtain ⟨loose, same⟩ := shown
  have noMark : ∀ c ∈ Tree.sources items, c ∉ marks := same ▸ part.noMark
  cases inside : inBody stack with
  | false => exact ⟨items, .elsewhere ⟨loose, same⟩, runs_elsewhere inside loose noMark⟩
  | true =>
    refine ⟨[plainText part.text], .inElement part.text, ?_⟩
    have isRun : runOf items = some part.text := by
      cases items with
      | nil => exact absurd same.symm part.filled
      | cons first later => exact congrArg some same
    have merged : runs stack (runOf []) (items ++ more) = runs stack (runOf ([] ++ items)) more :=
      runs_body inside loose noMark []
    rw [List.nil_append, isRun, runs_startsKept (starts inside)] at merged
    exact merged

/-- Behind a piece, a document starts with an item that is kept, or what follows it does. -/
theorem startsKept_behind {inElement : Bool} {doc : Doc true} {items : List Tree}
    (shows : Shows (fun _ => LooseText) inElement doc items) (starts : StartsKept stack more) :
    StartsKept stack (items ++ more) := by
  cases shows with
  | done => exact starts
  | group inside behind =>
    obtain ⟨inner, after, -⟩ := stackAfter?_braces stack
    exact ⟨brace '{', rfl, Option.isSome_iff_exists.mpr ⟨inner, after⟩⟩
  | @elem _ _ name _ _ opening _ _ _ opens inside closes behind =>
    exact ⟨opening, rfl, Option.isSome_iff_exists.mpr ⟨_, stackAfter?_showsTag opens stack⟩⟩

/-- Marking the items of a document shows it, and goes on behind it with the stack that it started
with. In an element, what follows the document starts with an item that is kept. -/
theorem runs_document {inElement behindPiece : Bool} {doc : Doc behindPiece} {items : List Tree}
    (shows : Shows (fun _ => LooseText) inElement doc items) (inside : inBody stack = inElement)
    (starts : inElement = true → StartsKept stack more) :
    ∃ result, Shows ShowsPiece inElement doc result ∧
      runs stack none (items ++ more) = result ++ runs stack none more := by
  induction shows generalizing stack more with
  | done => exact ⟨[], .done, rfl⟩
  | piece shown behind inductionHypothesis =>
    obtain ⟨later, showsLater, behindSame⟩ := inductionHypothesis inside starts
    obtain ⟨here, showsHere, same⟩ := runs_piece _ shown fun body =>
      startsKept_behind behind (starts (inside.symm.trans body))
    refine ⟨here ++ later, .piece (inside ▸ showsHere) showsLater, ?_⟩
    rw [List.append_assoc, same, behindSame, List.append_assoc]
  | group inner behind inInner inBehind =>
    obtain ⟨counted, opened, outside, closed⟩ := stackAfter?_braces stack
    obtain ⟨middle, showsInner, innerSame⟩ := inInner outside nofun
    obtain ⟨later, showsLater, behindSame⟩ := inBehind inside starts
    refine ⟨brace '{' :: (middle ++ brace '}' :: later), .group showsInner showsLater, ?_⟩
    rw [List.cons_append, List.append_assoc, runs_kept opened (kept_flat rfl), innerSame,
      List.cons_append, runs_kept closed (kept_flat rfl), behindSame]
    simp
  | @elem _ _ name _ _ opening closing _ back opens inner closes behind inInner inBehind =>
    have opened : stackAfter? stack opening = some (⟨name.chars, 0⟩ :: stack) := by
      rw [stackAfter?_showsTag opens, stackBehind_opening]
    have closed : stackAfter? (⟨name.chars, 0⟩ :: stack) closing = some stack := by
      rw [stackAfter?_showsTag closes, stackBehind_closing]
    have ends : StartsKept (⟨name.chars, 0⟩ :: stack) (closing :: (back ++ more)) :=
      ⟨closing, rfl, Option.isSome_iff_exists.mpr ⟨stack, closed⟩⟩
    obtain ⟨middle, showsInner, innerSame⟩ := inInner rfl fun _ => ends
    obtain ⟨later, showsLater, behindSame⟩ := inBehind inside starts
    refine ⟨opening :: (middle ++ closing :: later), .elem opens showsInner closes showsLater, ?_⟩
    rw [List.cons_append, List.append_assoc, runs_kept opened (kept_showsTag opens),
      List.cons_append, innerSame, runs_kept closed (kept_showsTag closes), behindSame]
    simp

/-- Marking the items of a whole document shows it. -/
theorem mark_document {doc : Doc false} {items : List Tree}
    (shows : Shows (fun _ => LooseText) false doc items) :
    Shows ShowsPiece false doc (mark items) := by
  have outside : inBody [] = false := rfl
  have marked : ∃ result, Shows ShowsPiece false doc result ∧
      runs [] none (items ++ []) = result ++ runs [] none [] := runs_document shows outside nofun
  obtain ⟨result, shown, same⟩ := marked
  have isResult : mark items = result := by
    rw [mark_runs, ← List.append_nil items, same]
    exact List.append_nil result
  exact isResult ▸ shown

/-! ## Plain-text tokens -/

mutual

/-- The texts of the plain-text tokens in a tree, at any depth. -/
def plainTexts : Tree → List Text
  | .text _ => []
  | .token kind content aliases cached =>
    (if kind = .plainText then [(Tree.token kind content aliases cached).source] else []) ++
      plainTexts content
  | .list items => allPlainTexts items

/-- The texts of the plain-text tokens in some trees, at any depth. -/
def allPlainTexts : List Tree → List Text
  | [] => []
  | item :: items => plainTexts item ++ allPlainTexts items

end

/-- The pieces that stand directly in an element, where it is said whether the document does. -/
def Doc.bodies (inElement : Bool) {behindPiece : Bool} : Doc behindPiece → List Text
  | done => []
  | piece part later => (if inElement then [part.text] else []) ++ later.bodies inElement
  | group inner later => inner.bodies false ++ later.bodies inElement
  | elem _ inner later => inner.bodies true ++ later.bodies inElement

/-- The plain texts of two lists are those of the one and then those of the other. -/
theorem allPlainTexts_append (front back : List Tree) :
    allPlainTexts (front ++ back) = allPlainTexts front ++ allPlainTexts back := by
  induction front with
  | nil => rfl
  | cons item front inductionHypothesis => simp [allPlainTexts, inductionHypothesis]

/-- There is no plain text in loose items. -/
theorem plainTexts_loose {items : List Tree} (loose : ∀ item ∈ items, Loose item) :
    allPlainTexts items = [] := by
  induction items with
  | nil => rfl
  | cons item items inductionHypothesis =>
    obtain ⟨first, later⟩ := List.forall_mem_cons.mp loose
    have here : plainTexts item = [] := by
      cases first with
      | raw text => rfl
      | token text aliases notTag notPlain => simp [plainTexts, notPlain]
    rw [allPlainTexts, here, inductionHypothesis later]
    rfl

/-- There is none in a tag. -/
theorem plainTexts_showsTag {closing : Bool} {name : Run Tag.isNameChar} {token : Tree}
    (shows : ShowsTag closing name token) : plainTexts token = [] := by
  cases shows with
  | token parts loose named => simp [plainTexts, allPlainTexts, plainTexts_loose loose]

/-- There is none in a brace. -/
theorem plainTexts_brace (c : Char) : plainTexts (brace c) = [] := rfl

/-- The plain-text tokens of items that show a document are the pieces that stand directly in an
element. -/
theorem plainTexts_shows {inElement behindPiece : Bool} {doc : Doc behindPiece} {items : List Tree}
    (shows : Shows ShowsPiece inElement doc items) :
    allPlainTexts items = doc.bodies inElement := by
  induction shows with
  | done => rfl
  | piece shown behind inductionHypothesis =>
    rw [allPlainTexts_append, inductionHypothesis, Doc.bodies]
    cases shown with
    | inElement text => rfl
    | elsewhere shown => rw [plainTexts_loose shown.1]; rfl
  | group inner behind inInner inBehind =>
    simp [allPlainTexts, allPlainTexts_append, plainTexts_brace, inInner, inBehind, Doc.bodies]
  | elem opens inner closes behind inInner inBehind =>
    simp [allPlainTexts, allPlainTexts_append, plainTexts_showsTag opens,
      plainTexts_showsTag closes, inInner, inBehind, Doc.bodies]

/-! ## Highlighting -/

/-- The further keywords of the default configuration. -/
def extraKeywords : List Text := ["templ".toList, "css".toList, "script".toList]

/-- The default configuration gives a registry of the templ grammar with three further keywords and
two levels of braces. -/
theorem create_default : ∃ registry log, Registry.create {} = .ok (registry, log) ∧
    registry.get "templ" = .ok (grammar extraKeywords 2) ∧
    registry.hooksOf Registry.afterTokenize = [.plainText "templ"] :=
  ⟨_, _, rfl, rfl, rfl⟩

/-- Highlighting a document with the default templ registry. The result goes along the document: at
the top level stand one tag token for each tag and one punctuation token for each brace, in order; a
piece that stands directly in an element is one plain-text token with the whole piece; a piece that
stands anywhere else, in a group or outside of all elements, is neither tags nor plain text. So the
plain-text tokens, at any depth, are the pieces that stand directly in an element.

Proof: the grammar splits the document into tags, braces, and loose items that do not reach over
these. Marking takes the stack back to where it was behind each group and each element, and merges
the items of each piece directly in an element, since a tag or a brace follows it. -/
theorem highlight_document (doc : Doc false) :
    ∃ registry log items, Registry.create {} = .ok (registry, log) ∧
      registry.highlight doc.text "templ" = .ok items ∧
      Shows ShowsPiece false doc items ∧
      allPlainTexts items = doc.bodies false := by
  obtain ⟨registry, log, created, installed, hooked⟩ := create_default
  obtain ⟨items, split⟩ := tokenize_total extraKeywords 2 doc.text
  have bounded : Bounded [] := nofun
  have others : ∀ word ∈ extraKeywords, ∀ c ∈ word, c ∉ braces := by
    simp [extraKeywords, braces]
  obtain ⟨covers, good⟩ := good_items others (harmless_doc doc bounded) (doc_noQuote doc) split
  have shows : Shows (fun _ => LooseText) false doc items := shows_of_covers doc good covers
  have shown := mark_document shows
  exact ⟨registry, log, mark items, created, highlight_installed installed hooked split, shown,
    plainTexts_shows shown⟩

end TemplHighlight.Document
