import TemplHighlight.Proofs.Html.Reader
import TemplHighlight.Proofs.Registry.Shipped
import TemplHighlight.Proofs.TagBody.Kept

/-!
# Highlighted text as HTML

The HTML of a highlighted text can be read back, and gives the text. Three facts come together:
splitting and marking lose nothing, so the text of a tree can be read off its leaves; the characters
that mean something in HTML are written as entities, so no character of the source is taken for a
tag; and no alias of the templ grammar has a quote in it, so none ends a tag too early.
-/

namespace TemplHighlight.Html

open Split TagBody Templ

/-- No rule of the templ grammar gives its tokens an alias with a quote in it. -/
theorem grammar_plainAliases (keywords : List Text) (depth : Nat) :
    (grammar keywords depth).Only fun _ rule =>
      (rule.aliases.all fun name => !name.toList.contains '"') = true := by
  apply RuleSet.only_of_every
  cases keywords <;> rfl

variable {keywords : List Text} {depth : Nat} {text : Text} {items : List Tree}

/-- So no token that a text is split into has one. -/
theorem plainAliases_of_split (split : (grammar keywords depth).tokenize text = .ok items)
    {kind : TokenKind} {content : Tree} {aliases : List String} {cached : Option Text}
    (among : (Tree.token kind content aliases cached).Among items) :
    ∀ name ∈ aliases, '"' ∉ name.toList := by
  obtain ⟨ruleName, rule, held, made⟩ :=
    made_of_tokenize (only_keeps (grammar_usable keywords depth)) split rfl among
  cases made with
  | token named taken =>
    intro name listed quoted
    have plain := List.all_eq_true.mp (grammar_plainAliases keywords depth ruleName rule held) name
      listed
    rw [List.contains_iff_mem.mpr quoted] at plain
    cases plain

/-- Marking adds tokens without aliases only. -/
theorem plainAliases_of_mark (split : (grammar keywords depth).tokenize text = .ok items) :
    ∀ item ∈ mark items, PlainAliases item := by
  intro item listed kind content aliases cached inside
  cases stems_of_mark rfl ⟨item, listed, inside⟩ with
  | plain => nofun
  | kept has same => exact plainAliases_of_split split has.2

/-- The HTML of a highlighted text decodes to the text. It can be read to its end as `span`
elements, entities and other characters, with one element for each token of the tree and no other;
the elements are well nested; and the characters without the tags are the text, each of them in its
place. That holds for every text, every depth of brace groups and all further keywords.

Proof: what the text is split into covers it, and marking keeps that, so the characters of the
leaves are the text. The reader takes a tree for what it is, whatever follows behind it: an escaped
character is read as that character, and the tag of an element ends at its second quote since none
of its classes has one. -/
theorem html_decodes (config : Config) (depth : Nat) (text : Text) :
    ∃ registry log items,
      Registry.create (config.shipped depth) = .ok (registry, log) ∧
      registry.highlight text config.language = .ok items ∧
      read (render (.list items)) = some (signsOfAll items) ∧
      WellNested (signsOfAll items) ∧
      textOf (signsOfAll items) = text := by
  obtain ⟨registry, log, created, installed, hooked⟩ := Registry.create_shipped config depth
  obtain ⟨items, split⟩ := tokenize_total config.keywords depth text
  have keeps := only_keeps (grammar_usable config.keywords depth)
  have covers := covers_mark (splitWith_covers _ keeps keeps split)
  exact ⟨registry, log, mark items, created, Registry.highlight_installed installed hooked split,
    read_of_covers covers (plainAliases_of_mark split)⟩

end TemplHighlight.Html
