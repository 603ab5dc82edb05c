import TemplHighlight.Proofs.Document.Tokens

/-!
# The tokens along a document

The items that a document is split into, read along the document: a tag for each tag, a brace for
each brace, and loose items for each piece. Since no item reaches over a tag or a brace, each part
of the document has items of its own, and the first character of an item says which kind of part it
belongs to.
-/

namespace TemplHighlight.Document

open Split TagLanguage Templ

/-- Loose items that have a text. -/
def LooseText (text : Text) (items : List Tree) : Prop :=
  (∀ item ∈ items, Loose item) ∧ Tree.sources items = text

/-- Items that show a document, or the rest of one, directly in an element or elsewhere, when it is
said how a piece is shown there. -/
inductive Shows (pieces : (inElement : Bool) → Text → List Tree → Prop) :
    (inElement : Bool) → {behindPiece : Bool} → Doc behindPiece → List Tree → Prop where
  | done {inElement behindPiece : Bool} : Shows pieces inElement (.done : Doc behindPiece) []
  | piece {inElement : Bool} {part : Piece} {later : Doc true} {front back : List Tree}
      (shown : pieces inElement part.text front) (behind : Shows pieces inElement later back) :
      Shows pieces inElement (.piece part later) (front ++ back)
  | group {inElement behindPiece : Bool} {inner later : Doc false} {middle back : List Tree}
      (inside : Shows pieces false inner middle) (behind : Shows pieces inElement later back) :
      Shows pieces inElement (.group inner later : Doc behindPiece)
        (brace '{' :: (middle ++ brace '}' :: back))
  | elem {inElement behindPiece : Bool} {name : Run Tag.isNameChar} {inner later : Doc false}
      {opening closing : Tree} {middle back : List Tree} (opens : ShowsTag false name opening)
      (inside : Shows pieces true inner middle) (closes : ShowsTag true name closing)
      (behind : Shows pieces inElement later back) :
      Shows pieces inElement (.elem name inner later : Doc behindPiece)
        (opening :: (middle ++ closing :: back))

/-! ## What an item starts with -/

/-- The token of a tag has the text of the tag. -/
theorem source_showsTag {closing : Bool} {name : Run Tag.isNameChar} {token : Tree}
    (shows : ShowsTag closing name token) : token.source = tagText closing name := by
  cases shows
  rfl

/-- A good item that starts with an opening mark is a tag. -/
theorem tag_of_head {item : Tree} (good : Good marks item) {rest : Text}
    (head : item.source = '<' :: rest) : ∃ closing name, ShowsTag closing name item := by
  have open_mem {text : Text} (source : text = '<' :: rest) : '<' ∈ text :=
    source ▸ List.mem_cons_self
  cases good with
  | raw text others => exact absurd (by decide) (others '<' (open_mem head))
  | tag closing name shows => exact ⟨closing, name, shows⟩
  | brace isBrace =>
    rcases isBrace with rfl | rfl <;> cases head
  | token text aliases notTag notPlain others =>
    exact absurd (by decide) (others '<' (open_mem head))

/-- A good item that starts with a brace is that brace. -/
theorem brace_of_head {item : Tree} (good : Good marks item) {c : Char} (isBrace : c ∈ braces)
    {rest : Text} (head : item.source = c :: rest) : item = brace c ∧ rest = [] := by
  have isMark : c ∈ marks := List.mem_cons_of_mem '<' isBrace
  have c_mem {text : Text} (source : text = c :: rest) : c ∈ text := source ▸ List.mem_cons_self
  cases good with
  | raw text others => exact absurd isMark (others c (c_mem head))
  | tag closing name shows =>
    rw [source_showsTag shows] at head
    cases head
    exact absurd isBrace (by decide)
  | brace other =>
    cases head
    exact ⟨rfl, rfl⟩
  | token text aliases notTag notPlain others => exact absurd isMark (others c (c_mem head))

/-- A good item that starts with another character is loose, and there are no marks in it. -/
theorem loose_of_head {item : Tree} (good : Good marks item) {c : Char} (notMark : c ∉ marks)
    {rest : Text} (head : item.source = c :: rest) :
    Loose item ∧ ∀ d ∈ item.source, d ∉ marks := by
  cases good with
  | raw text others => exact ⟨.raw text, others⟩
  | tag closing name shows =>
    rw [source_showsTag shows] at head
    cases head
    exact absurd (by decide) notMark
  | brace isBrace =>
    cases head
    rcases isBrace with rfl | rfl <;> exact absurd (by decide) notMark
  | token text aliases notTag notPlain others => exact ⟨.token text aliases notTag notPlain, others⟩

/-! ## Part by part -/

variable {items : List Tree} {follow : Text}

/-- Items that cover a text with a first character start with an item that has this character. -/
theorem first_item {c : Char} {rest : Text} (covers : Covers (c :: rest) items) :
    ∃ item later more, items = item :: later ∧ item.source = c :: more ∧
      rest = more ++ Tree.sources later ∧ Covers (Tree.sources later) later := by
  cases items with
  | nil => cases covers.sources
  | cons item later =>
    obtain ⟨lossless, split, behind⟩ := covers.uncons
    cases source : item.source with
    | nil => exact absurd source lossless.source_filled
    | cons d more =>
      rw [source] at split
      injection split with same tail
      exact ⟨item, later, more, rfl, same ▸ source, tail, behind⟩

/-- A brace has an item of its own. -/
theorem brace_first (good : ∀ item ∈ items, Good marks item) {c : Char} (isBrace : c ∈ braces)
    (covers : Covers (c :: follow) items) :
    ∃ later, items = brace c :: later ∧ Covers follow later := by
  obtain ⟨item, later, more, rfl, head, rfl, behind⟩ := first_item covers
  obtain ⟨rfl, rfl⟩ := brace_of_head (good item List.mem_cons_self) isBrace head
  exact ⟨later, rfl, behind⟩

/-- The text of a tag says whether it is closing, and its name. -/
theorem tagText_injective {closing other : Bool} {name otherName : Run Tag.isNameChar}
    (same : tagText closing name = tagText other otherName) :
    closing = other ∧ name = otherName := by
  have noSlash {name otherName : Run Tag.isNameChar} :
      name.chars ++ ['>'] ≠ '/' :: (otherName.chars ++ ['>']) := by
    obtain ⟨c, later, split, first⟩ := run_head name
    rw [split]
    intro same
    injection same with slash
    exact (name_plain first).2.2 slash
  have sameRun (chars : name.chars ++ ['>'] = otherName.chars ++ ['>']) : name = otherName := by
    have sameChars := List.append_cancel_right chars
    cases name
    cases otherName
    cases sameChars
    rfl
  injection same with _ inner
  cases closing <;> cases other
  · exact ⟨rfl, sameRun inner⟩
  · exact absurd inner noSlash
  · exact absurd inner.symm noSlash
  · injection inner with _ chars
    exact ⟨rfl, sameRun chars⟩

/-- A tag has an item of its own. -/
theorem tag_first (good : ∀ item ∈ items, Good marks item) (closing : Bool)
    (name : Run Tag.isNameChar) (covers : Covers (tagText closing name ++ follow) items) :
    ∃ token later, items = token :: later ∧ ShowsTag closing name token ∧ Covers follow later := by
  obtain ⟨item, later, more, rfl, head, split, behind⟩ := first_item covers
  obtain ⟨other, otherName, shows⟩ := tag_of_head (good item List.mem_cons_self) head
  have both : tagText closing name ++ follow = tagText other otherName ++ Tree.sources later := by
    rw [← source_showsTag shows, head]
    exact congrArg ('<' :: ·) split
  have sameFollow : follow = Tree.sources later := by
    have here : (tagRule 0).pattern.after? (tagText closing name ++ follow) = .ok (some follow) :=
      tag_after closing name follow
    rw [both, tag_after] at here
    cases here
    rfl
  rw [sameFollow] at both ⊢
  obtain ⟨rfl, rfl⟩ := tagText_injective (List.append_cancel_right both)
  exact ⟨item, later, rfl, shows, behind⟩

/-- A piece has loose items of its own. -/
theorem piece_first {text : Text} (good : ∀ item ∈ items, Good marks item)
    (noMark : ∀ c ∈ text, c ∉ marks) (bounded : Bounded follow)
    (covers : Covers (text ++ follow) items) :
    ∃ front back, items = front ++ back ∧ LooseText text front ∧ Covers follow back := by
  induction items generalizing text with
  | nil =>
    have empty := List.append_eq_nil_iff.mp covers.sources.symm
    exact ⟨[], [], rfl, ⟨List.forall_mem_nil _, empty.1.symm⟩, empty.2 ▸ covers_nil⟩
  | cons item later inductionHypothesis =>
    cases text with
    | nil => exact ⟨[], item :: later, rfl, ⟨List.forall_mem_nil _, rfl⟩, covers⟩
    | cons c rest =>
      obtain ⟨_, _, more, ⟨⟩, head, split, behind⟩ := first_item covers
      obtain ⟨goodFirst, goodLater⟩ := List.forall_mem_cons.mp good
      obtain ⟨loose, others⟩ := loose_of_head goodFirst (noMark c List.mem_cons_self) head
      rw [head] at others
      -- the item ends in the piece, since a mark follows the piece
      have inside : ∃ left, rest = more ++ left ∧ Tree.sources later = left ++ follow := by
        rcases List.append_eq_append_iff.mp split with ⟨beyond, split, behindBeyond⟩ | inside
        · cases beyond with
          | nil => exact ⟨[], by simp [split], behindBeyond.symm⟩
          | cons d beyond =>
            have isMark : d ∈ marks := bounded d (by rw [behindBeyond]; rfl)
            have notMark : d ∉ marks := others d (by simp [split])
            exact absurd isMark notMark
        · exact inside
      obtain ⟨left, rfl, sources⟩ := inside
      have noMarkLeft : ∀ d ∈ left, d ∉ marks := fun d member =>
        noMark d (List.mem_cons_of_mem c (List.mem_append_right more member))
      obtain ⟨front, back, rfl, ⟨looseFront, text⟩, covered⟩ :=
        inductionHypothesis goodLater noMarkLeft (sources ▸ behind)
      refine ⟨item :: front, back, rfl, ⟨List.forall_mem_cons.mpr ⟨loose, looseFront⟩, ?_⟩, covered⟩
      rw [Tree.sources, head, text]
      rfl

/-- Good items that cover a document, and something behind it, show it, every piece by loose
items. -/
theorem shows_of_good {behindPiece : Bool} (doc : Doc behindPiece)
    (good : ∀ item ∈ items, Good marks item) (bounded : Bounded follow)
    (covers : Covers (doc.text ++ follow) items) (inElement : Bool) :
    ∃ front back, items = front ++ back ∧ Shows (fun _ => LooseText) inElement doc front ∧
      Covers follow back := by
  have startsWith {c : Char} (mark : c ∈ marks) (rest : Text) : Bounded (c :: rest) := by
    rintro _ ⟨⟩
    exact mark
  have openBrace : '{' ∈ braces := by decide
  have closeBrace : '}' ∈ braces := by decide
  have behind {front back : List Tree} (good : ∀ item ∈ front ++ back, Good marks item) :
      ∀ item ∈ back, Good marks item := (List.forall_mem_append.mp good).2
  induction doc generalizing items follow inElement with
  | done => exact ⟨[], items, rfl, .done, covers⟩
  | piece part later inLater =>
    rw [Doc.text, List.append_assoc] at covers
    obtain ⟨front, rest, rfl, shown, covers⟩ :=
      piece_first good part.noMark (bounded_behind later bounded) covers
    obtain ⟨middle, back, rfl, shows, covers⟩ := inLater (behind good) bounded covers inElement
    exact ⟨front ++ middle, back, (List.append_assoc ..).symm, .piece shown shows, covers⟩
  | group inner later inInner inLater =>
    rw [Doc.text, List.cons_append, List.append_assoc, List.cons_append] at covers
    obtain ⟨rest, rfl, inRest⟩ := brace_first good openBrace covers
    have goodRest := (List.forall_mem_cons.mp good).2
    obtain ⟨middle, rest, rfl, inside, closed⟩ :=
      inInner goodRest (startsWith (by decide) _) inRest false
    obtain ⟨rest, rfl, inBack⟩ := brace_first (behind goodRest) closeBrace closed
    have goodBack := (List.forall_mem_cons.mp (behind goodRest)).2
    obtain ⟨front, back, rfl, shows, covered⟩ := inLater goodBack bounded inBack inElement
    refine ⟨brace '{' :: (middle ++ brace '}' :: front), back, ?_, .group inside shows, covered⟩
    simp
  | elem name inner later inInner inLater =>
    rw [Doc.text, List.append_assoc, List.append_assoc, List.append_assoc] at covers
    obtain ⟨opening, rest, rfl, opens, covers⟩ := tag_first good false name covers
    have goodRest := (List.forall_mem_cons.mp good).2
    obtain ⟨middle, rest, rfl, inside, covers⟩ :=
      inInner goodRest (startsWith (by decide) _) covers true
    obtain ⟨closing, rest, rfl, closes, covers⟩ := tag_first (behind goodRest) true name covers
    have goodBack := (List.forall_mem_cons.mp (behind goodRest)).2
    obtain ⟨front, back, rfl, shows, covers⟩ := inLater goodBack bounded covers inElement
    refine ⟨opening :: (middle ++ closing :: front), back, ?_, .elem opens inside closes shows,
      covers⟩
    simp

/-- Good items that cover a whole document show it. -/
theorem shows_of_covers (doc : Doc false) (good : ∀ item ∈ items, Good marks item)
    (covers : Covers doc.text items) : Shows (fun _ => LooseText) false doc items := by
  have bounded : Bounded [] := nofun
  rw [← List.append_nil doc.text] at covers
  obtain ⟨front, back, rfl, shows, behind⟩ := shows_of_good doc good bounded covers false
  cases back with
  | nil => exact (List.append_nil front).symm ▸ shows
  | cons item later =>
    have filled := (behind.lossless item List.mem_cons_self).source_filled
    exact absurd (List.append_eq_nil_iff.mp behind.sources).1 filled

end TemplHighlight.Document
