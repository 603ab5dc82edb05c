import Mathlib
import TemplHighlight.Grammar.Markup
import TemplHighlight.Proofs.Split.Alike
import TemplHighlight.Proofs.Split.Parts

/-!
# The flag of the first rule

A greedy rule looks at the text of a raw item together with all that is behind it. With one raw item
there is nothing behind, so it makes no difference whether the rule is greedy. The first rule of a
set works on one raw item, and so its flag makes no difference either, at any depth of a grammar:
only flags of rules that are somewhere tried behind others do. A rule that is the first of one set
may be a later one of another set, whose rest leads to it.
-/

namespace TemplHighlight

namespace RuleSet

mutual

/-- The rule set with all its rules plain, at every depth. -/
def unflagged : RuleSet → RuleSet
  | ⟨label, entries, rest⟩ => ⟨label, unflaggedEntries entries, unflaggedLink rest⟩

/-- The link to the plain rule set. -/
def unflaggedLink : Link RuleSet → Link RuleSet
  | .none => .none
  | .root => .root
  | .to set => .to set.unflagged

/-- The entries with all their rules plain. -/
def unflaggedEntries : List (String × List (RuleOver RuleSet)) → List (String × List Rule)
  | [] => []
  | entry :: entries => unflaggedEntry entry :: unflaggedEntries entries

/-- The entry with all its rules plain. -/
def unflaggedEntry : String × List (RuleOver RuleSet) → String × List Rule
  | (name, rules) => (name, unflaggedRules rules)

/-- The rules as plain ones. -/
def unflaggedRules : List (RuleOver RuleSet) → List Rule
  | [] => []
  | rule :: rules => unflaggedRule rule :: unflaggedRules rules

/-- The rule as a plain one. -/
def unflaggedRule : RuleOver RuleSet → Rule
  | ⟨pattern, inside, aliases, lookbehind, _, kind⟩ =>
    ⟨pattern, unflaggedLink inside, aliases, lookbehind, false, kind⟩

end

mutual

/-- Flags do not change what a rule set leads to. -/
theorem links_unflagged : (set : RuleSet) → set.unflagged.links = set.links.map unflagged
  | ⟨label, entries, rest⟩ => by
    rw [links, unflagged, links, List.map_cons, unflagged, linksFrom_unflagged rest]

/-- Nor do they change what a link leads to. -/
theorem linksFrom_unflagged :
    (link : Link RuleSet) → linksFrom (unflaggedLink link) = (linksFrom link).map unflagged
  | .none | .root => rfl
  | .to set => links_unflagged set

end

mutual

/-- Whether the rests of a set end at the root has nothing to do with flags. -/
theorem endsAtRoot_unflagged : (set : RuleSet) → set.unflagged.endsAtRoot = set.endsAtRoot
  | ⟨_, _, rest⟩ => linkEndsAtRoot_unflagged rest

/-- The same of a link. -/
theorem linkEndsAtRoot_unflagged :
    (link : Link RuleSet) → linkEndsAtRoot (unflaggedLink link) = linkEndsAtRoot link
  | .none | .root => rfl
  | .to set => endsAtRoot_unflagged set

end

mutual

/-- A rule set is made of as many sets without its flags. -/
theorem setCount_unflagged : (set : RuleSet) → set.unflagged.setCount = set.setCount
  | ⟨_, entries, rest⟩ => by
    rw [unflagged, setCount, setCount, setCountEntries_unflagged entries,
      setCountLink_unflagged rest]

/-- So does a link. -/
theorem setCountLink_unflagged :
    (link : Link RuleSet) → setCountLink (unflaggedLink link) = setCountLink link
  | .none | .root => rfl
  | .to set => setCount_unflagged set

/-- So do the entries of a set. -/
theorem setCountEntries_unflagged : (entries : List (String × List (RuleOver RuleSet))) →
    setCountEntries (unflaggedEntries entries) = setCountEntries entries
  | [] => rfl
  | entry :: entries => by
    rw [unflaggedEntries, setCountEntries, setCountEntries, setCountEntry_unflagged entry,
      setCountEntries_unflagged entries]

/-- So does each of them. -/
theorem setCountEntry_unflagged : (entry : String × List (RuleOver RuleSet)) →
    setCountEntry (unflaggedEntry entry) = setCountEntry entry
  | (_, rules) => setCountRules_unflagged rules

/-- So do the rules under a name. -/
theorem setCountRules_unflagged : (rules : List (RuleOver RuleSet)) →
    setCountRules (unflaggedRules rules) = setCountRules rules
  | [] => rfl
  | rule :: rules => by
    rw [unflaggedRules, setCountRules, setCountRules, setCountRule_unflagged rule,
      setCountRules_unflagged rules]

/-- So does each of these. -/
theorem setCountRule_unflagged :
    (rule : RuleOver RuleSet) → setCountRule (unflaggedRule rule) = setCountRule rule
  | ⟨_, inside, _, _, _, _⟩ => setCountLink_unflagged inside

end

/-- Flags do not change which sets of a list are tried. -/
theorem takeUnseen_unflagged (seen : List String) (sets : List RuleSet) :
    takeUnseen seen (sets.map unflagged) = (takeUnseen seen sets).map unflagged := by
  induction sets generalizing seen with
  | nil => rfl
  | cons set sets inductionHypothesis =>
    obtain ⟨label, entries, rest⟩ := set
    simp only [List.map_cons, takeUnseen, unflagged]
    split
    · rfl
    · rw [inductionHypothesis, List.map_cons, unflagged]

/-- The chain of the plain sets is that of the sets. -/
theorem chain_unflagged (root set : RuleSet) :
    chain root.unflagged set.unflagged = (chain root set).map unflagged := by
  rw [chain, chain, links_unflagged, links_unflagged, endsAtRoot_unflagged, ← takeUnseen_unflagged,
    List.map_append]
  split <;> rfl

/-- A rule with its name, as a plain one. -/
def unflaggedNamed (entry : String × Rule) : String × Rule := (entry.1, unflaggedRule entry.2)

/-- All rules of the plain set are those of the set, as plain ones. -/
theorem allRules_unflagged (set : RuleSet) :
    set.unflagged.allRules = set.allRules.map unflaggedNamed := by
  obtain ⟨label, entries, rest⟩ := set
  have ofRules (name : String) (rules : List Rule) :
      (unflaggedRules rules).map (name, ·) = (rules.map (name, ·)).map unflaggedNamed := by
    induction rules with
    | nil => rfl
    | cons rule rules inductionHypothesis =>
      rw [unflaggedRules, List.map_cons, inductionHypothesis]
      rfl
  have ofEntries : (unflaggedEntries entries).flatMap (fun (name, rules) => rules.map (name, ·)) =
      (entries.flatMap fun (name, rules) => rules.map (name, ·)).map unflaggedNamed := by
    induction entries with
    | nil => rfl
    | cons entry entries inductionHypothesis =>
      obtain ⟨name, rules⟩ := entry
      rw [unflaggedEntries, List.flatMap_cons, List.flatMap_cons, List.map_append,
        inductionHypothesis]
      exact congrArg (· ++ _) (ofRules name rules)
  exact ofEntries

/-- The same rules are tried, as plain ones. -/
theorem chainRules_unflagged (root set : RuleSet) :
    chainRules root.unflagged set.unflagged = (chainRules root set).map unflaggedNamed := by
  rw [chainRules, chainRules, chain_unflagged, List.flatMap_map, List.map_flatMap]
  simp only [allRules_unflagged]

/-- Two rule sets at one place of two grammars: the grammars themselves, or the sets inside of the
rules that are tried in one turn with two such sets. -/
inductive Paired (root root' : RuleSet) : RuleSet → RuleSet → Prop where
  | root : Paired root root' root root'
  | inside {set set' inner inner' : RuleSet} {entry entry' : String × Rule} {turn : Nat}
      (paired : Paired root root' set set') (tried : (chainRules root set)[turn]? = some entry)
      (tried' : (chainRules root' set')[turn]? = some entry')
      (linked : entry.2.inside = .to inner) (linked' : entry'.2.inside = .to inner') :
      Paired root root' inner inner'

/-- Two grammars are the same but for the greedy flags of rules, and these differ only in rules that
are the first to be tried: wherever a rule is tried behind another one, it has the same flag in
both. -/
structure FirstFlags (root root' : RuleSet) : Prop where
  alike : root.unflagged = root'.unflagged
  later : ∀ set set', Paired root root' set set' →
    (chainRules root set).tail.map (·.2.greedy) = (chainRules root' set').tail.map (·.2.greedy)

end RuleSet

namespace Split

open RuleSet

/-- A greedy rule does to one raw text what a plain one does, failures included, if what it finds
stays inside the text. -/
theorem splitGreedy_raw {find : Finder} (stays : StaysInside find) (make : Maker) (text : Text) :
    splitGreedy find make (raw text) = splitText find make text := by
  induction text using splitText.induct with
  | case1 text empty =>
    rw [List.isEmpty_iff.mp empty, raw, splitGreedy, splitText, if_pos List.isEmpty_nil]
  | case2 text filled inductionHypothesis =>
    have alone : raw text = [.text text] := raw_of_filled fun none => filled (none ▸ rfl)
    have isRaw : ¬ (Tree.text text).isToken = true := Bool.false_ne_true
    rw [alone, splitGreedy, if_neg isRaw, splitText, if_neg filled]
    simp only [sources_text]
    cases found : find text with
    | error error => rfl
    | ok bounds? =>
      cases bounds? with
      | none => rfl
      | some bounds =>
        obtain ⟨start, stop⟩ := bounds
        show (if start < stop then _ else _) = if start < stop then _ else _
        by_cases ordered : start < stop
        · have inside := stays text start stop found
          have spanned : spanBefore start [.text text] = ([], [.text text]) := by
            rw [spanBefore, if_neg]
            exact Nat.not_le.mpr (Nat.lt_of_lt_of_le ordered inside)
          rw [if_pos ordered, if_pos ordered]
          split
          · rw [dropSource_alone (Nat.zero_lt_of_lt ordered),
              inductionHypothesis start stop ordered]
          · rename_i spannedToo
            rw [spanned] at spannedToo
            cases spannedToo
        · rw [if_neg ordered, if_neg ordered, splitGreedy]
          rfl

/-- A plain rule splits one raw text. -/
theorem splitEach_raw (find : Finder) (make : Maker) (text : Text) :
    splitEach find make (raw text) = splitText find make text := by
  cases text with
  | nil =>
    rw [splitText, if_pos List.isEmpty_nil]
    rfl
  | cons c rest =>
    show (do
      let front ← splitText find make (c :: rest)
      return front ++ []) = splitText find make (c :: rest)
    simp

/-- On one raw text, rules that differ in their flags and have one maker do the same. -/
theorem applyRule_raw_alike {rule rule' : Rule} {make : Maker}
    (found : findWith rule = findWith rule') (stays : StaysInside (findWith rule)) (text : Text) :
    applyRule rule make (raw text) = applyRule rule' make (raw text) := by
  have either {rule : Rule} (stays : StaysInside (findWith rule)) :
      applyRule rule make (raw text) = splitText (findWith rule) make text := by
    unfold applyRule
    split
    · exact splitGreedy_raw stays make text
    · exact splitEach_raw _ make text
  rw [either stays, either (found ▸ stays), found]

/-! ## Grammars that are alike -/

/-- Two lists of rules are alike, and so are the flags of all rules but the first. -/
inductive TriedAlike (related : RuleSet → RuleSet → Prop) :
    List (String × Rule) → List (String × Rule) → Prop where
  | nil : TriedAlike related [] []
  | cons {first first' : String × Rule} {later later' : List (String × Rule)}
      (alike : RulesAlike related first first')
      (behind : List.Forall₂ (fun entry entry' => RulesAlike related entry entry' ∧
        entry.2.greedy = entry'.2.greedy) later later') :
      TriedAlike related (first :: later) (first' :: later')

variable {related : RuleSet → RuleSet → Prop} {root root' : RuleSet}

variable (related) in
/-- If related sets try rules that are alike, they split every text in the same way, failures
included. The first rule works on one raw text, so its flag makes no difference. -/
theorem splitWith_alike (roots : related root root')
    (rules : ∀ set set', related set set' →
      TriedAlike related (chainRules root set) (chainRules root' set'))
    (ofRoot : root.Only fun _ rule => rule.pattern.KeepsToText) (fuel : Nat) {set set' : RuleSet}
    (ofSet : set.Only fun _ rule => rule.pattern.KeepsToText) (pair : related set set') :
    splitWith root fuel set = splitWith root' fuel set' := by
  induction fuel generalizing set set' with
  | zero => rfl
  | succ fuel inductionHypothesis =>
    have made {entry entry' : String × Rule} (tried : entry ∈ chainRules root set)
        (alike : RulesAlike related entry entry') :
        makeWith (splitWith root fuel) root entry.1 entry.2 =
          makeWith (splitWith root' fuel) root' entry'.1 entry'.2 := by
      refine alike.made (inductionHypothesis ofRoot roots) ?_
      intro inner inner' linked pair
      exact inductionHypothesis ((only_of_chainRules tried ofRoot ofSet).2 inner linked) pair
    funext text
    rw [splitWith, splitWith]
    have alike := rules set set' pair
    generalize isTried : chainRules root set = tried at alike made
    generalize chainRules root' set' = tried' at alike
    cases alike with
    | nil => rfl
    | @cons first first' later later' alike behind =>
      have stays : StaysInside (findWith first.2) := by
        have tried : first ∈ chainRules root set := isTried ▸ List.mem_cons_self
        exact findWith_stays (only_of_chainRules tried ofRoot ofSet).1
      rw [List.foldlM_cons, List.foldlM_cons]
      simp only
      rw [made List.mem_cons_self alike, applyRule_raw_alike alike.found stays]
      refine bind_congr fun items => foldlM_alike ?_ items
      refine ((List.forall₂_and_left _ _).mpr ⟨fun entry listed => listed, behind⟩).imp ?_
      rintro entry entry' ⟨listed, alike, flag⟩ items
      rw [made (List.mem_cons_of_mem first listed) alike, alike.applied flag]

/-! ## Flags of first rules -/

/-- Links that are the same but for flags lead to sets that are the same but for flags. -/
theorem linksAlike_of_unflagged {link link' : Link RuleSet}
    (same : unflaggedLink link = unflaggedLink link')
    (pairs : ∀ set set', link = .to set → link' = .to set' → set.unflagged = set'.unflagged →
      related set set') : LinksAlike related link link' := by
  cases link <;> cases link' <;> try cases same
  · exact .none
  · exact .root
  · exact .to (pairs _ _ rfl rfl (Link.to.inj same))

/-- Rules that are the same but for flags are alike. -/
theorem rulesAlike_of_unflagged {entry entry' : String × Rule}
    (same : unflaggedNamed entry = unflaggedNamed entry')
    (pairs : ∀ set set', entry.2.inside = .to set → entry'.2.inside = .to set' →
      set.unflagged = set'.unflagged → related set set') : RulesAlike related entry entry' := by
  obtain ⟨name, pattern, inside, aliases, lookbehind, greedy, kind⟩ := entry
  obtain ⟨name', pattern', inside', aliases', lookbehind', greedy', kind'⟩ := entry'
  simp only [unflaggedNamed, unflaggedRule, Prod.mk.injEq, RuleOver.mk.injEq] at same
  obtain ⟨sameName, samePattern, sameInside, sameAliases, sameLookbehind, -, sameKind⟩ := same
  exact ⟨sameName, samePattern, sameLookbehind, sameAliases, sameKind,
    linksAlike_of_unflagged sameInside pairs⟩

/-- Where two lists have the same images, so have their elements in each turn. -/
theorem same_of_map {α β : Type} {image : α → β} {list list' : List α}
    (same : list.map image = list'.map image) {turn : Nat} {value value' : α}
    (there : list[turn]? = some value) (there' : list'[turn]? = some value') :
    image value = image value' := by
  have images := congrArg (·[turn]?) same
  simp only [List.getElem?_map, there, there'] at images
  exact Option.some.inj images

/-- Two sets at one place of two grammars are the same but for flags. -/
def Twins (root root' set set' : RuleSet) : Prop :=
  Paired root root' set set' ∧ set.unflagged = set'.unflagged

/-- Where two grammars differ in the flags of first rules only, twins try rules that are alike. -/
theorem Twins.tried (flags : FirstFlags root root') {set set' : RuleSet}
    (twins : Twins root root' set set') :
    TriedAlike (Twins root root') (chainRules root set) (chainRules root' set') := by
  obtain ⟨paired, same⟩ := twins
  have rules : (chainRules root set).map unflaggedNamed =
      (chainRules root' set').map unflaggedNamed := by
    rw [← chainRules_unflagged, ← chainRules_unflagged, flags.alike, same]
  have alike (turn : Nat) {entry entry' : String × Rule}
      (tried : (chainRules root set)[turn]? = some entry)
      (tried' : (chainRules root' set')[turn]? = some entry') :
      RulesAlike (Twins root root') entry entry' :=
    rulesAlike_of_unflagged (same_of_map rules tried tried') fun _ _ linked linked' sameInner =>
      ⟨.inside paired tried tried' linked linked', sameInner⟩
  have later := flags.later set set' paired
  have lengths := congrArg List.length rules
  rw [List.length_map, List.length_map] at lengths
  cases isTried : chainRules root set with
  | nil =>
    rw [isTried] at lengths
    rw [List.eq_nil_of_length_eq_zero lengths.symm]
    exact .nil
  | cons first more =>
    cases isTried' : chainRules root' set' with
    | nil =>
      rw [isTried, isTried'] at lengths
      cases lengths
    | cons first' more' =>
      rw [isTried, isTried'] at alike lengths later
      refine .cons (alike 0 rfl rfl) (List.forall₂_iff_get.mpr ⟨Nat.succ.inj lengths, ?_⟩)
      intro turn inside inside'
      have there := List.getElem?_eq_getElem inside
      have there' := List.getElem?_eq_getElem inside'
      exact ⟨alike (turn + 1) there there', same_of_map later there there'⟩

/-- Grammars that differ in the flags of first rules only split every text in the same way. -/
theorem tokenize_of_firstFlags (flags : FirstFlags root root')
    (keeps : root.Only fun _ rule => rule.pattern.KeepsToText) (text : Text) :
    root.tokenize text = root'.tokenize text := by
  have counts : root.setCount = root'.setCount := by
    rw [← setCount_unflagged, flags.alike, setCount_unflagged]
  have depths : root.depthBound text.length = root'.depthBound text.length := by
    rw [depthBound, depthBound, counts]
  have roots : Twins root root' root root' := ⟨.root, flags.alike⟩
  have split := splitWith_alike (Twins root root') roots (fun _ _ twins => twins.tried flags) keeps
    (root.depthBound text.length) keeps roots
  rw [tokenize, tokenize, ← depths, split]

/-- For every text with characters, every rule whose pattern keeps to the text, and every maker, the
rule gives the same items or the same error whether it is greedy or not. So grammars that are the
same but for flags of rules that are nowhere tried behind another rule split every text in the same
way, failures included.

Proof: the items left behind a match in one raw text are the raw text left behind it, so both ways
go on with the same text. The rules of a set are run one after another, and the first of them works
on one raw text; by induction on the depth, the rules of paired sets make the same tokens. -/
theorem greedy_of_first :
    (∀ (rule : Rule) (splitInside : RuleSet → Text → Except SplitError (List Tree)) (root : RuleSet)
        (name : String) (text : Text), rule.pattern.KeepsToText → text ≠ [] →
      splitGreedy (findWith rule) (makeWith splitInside root name rule) [.text text] =
        splitEach (findWith rule) (makeWith splitInside root name rule) [.text text]) ∧
    ∀ root root' : RuleSet, (root.Only fun _ rule => rule.pattern.KeepsToText) →
      FirstFlags root root' → ∀ text, root.tokenize text = root'.tokenize text := by
  refine ⟨fun rule splitInside root name text keeps filled => ?_, fun root root' keeps flags =>
    tokenize_of_firstFlags flags keeps⟩
  rw [← raw_of_filled filled, splitGreedy_raw (findWith_stays keeps), splitEach_raw]

/-! ## A first rule that is tried again behind others -/

/-- A rule for a word character at the start of the text. -/
def firstWordRule (greedy : Bool) : Rule :=
  { pattern := Grammar.pattern (.sequence [.textStart, .one .word]) "^\\w", greedy }

/-- The rule for the operators of a sum. -/
def sumOperatorRule : Rule := { pattern := Grammar.pattern (.among "-+*/") "[-+*/]" }

/-- What a sum in parentheses is split with. -/
def sumInside (rest : Link RuleSet) : RuleSet :=
  .ofList "sum" [("operator", [sumOperatorRule])] rest

/-- A rule for sums in parentheses. -/
def sumRule (rest : Link RuleSet) : Rule :=
  { pattern := Grammar.pattern (.sequence [.word "(", .most (.notAmong "()"), .word ")"])
      "\\([^()]*\\)"
    inside := .to (sumInside rest) }

/-- A grammar whose first rule may be greedy. With a rest that is the root, this rule is also tried
in sums, behind the one for operators. -/
def sums (greedy : Bool) (rest : Link RuleSet) : RuleSet :=
  .ofList "sums" [("keyword", [firstWordRule greedy]), ("string", [sumRule rest])]

/-- The rules that are tried first and second. -/
theorem chainRules_sums (greedy : Bool) (rest : Link RuleSet) :
    chainRules (sums greedy rest) (sums greedy rest) =
      [("keyword", firstWordRule greedy), ("string", sumRule rest)] := by
  cbv

/-- Without a rest, only the rule for operators is tried in sums. -/
theorem chainRules_sumInside (root : RuleSet) :
    chainRules root (sumInside .none) = [("operator", sumOperatorRule)] := by
  cbv

/-- The grammars pair with each other, and so do the sets inside of their sums. -/
theorem paired_sums {set set' : RuleSet}
    (paired : Paired (sums false .none) (sums true .none) set set') :
    (set = sums false .none ∧ set' = sums true .none) ∨
      (set = sumInside .none ∧ set' = sumInside .none) := by
  induction paired with
  | root => exact .inl ⟨rfl, rfl⟩
  | @inside _ _ _ _ _ _ turn _ tried tried' linked linked' either =>
    rcases either with ⟨rfl, rfl⟩ | ⟨rfl, rfl⟩
    · rw [chainRules_sums] at tried tried'
      match turn with
      | 0 =>
        cases tried
        cases linked
      | 1 =>
        cases tried
        cases tried'
        exact .inr ⟨(Link.to.inj linked).symm, (Link.to.inj linked').symm⟩
      | _ + 2 => cases tried
    · rw [chainRules_sumInside] at tried
      match turn with
      | 0 =>
        cases tried
        cases linked
      | _ + 1 => cases tried

/-- Without a rest, the grammars differ in the flag of a first rule only. -/
theorem firstFlags_sums : FirstFlags (sums false .none) (sums true .none) where
  alike := rfl
  later _ _ paired := by
    rcases paired_sums paired with ⟨rfl, rfl⟩ | ⟨rfl, rfl⟩
    · rw [chainRules_sums, chainRules_sums]
      rfl
    · rw [chainRules_sumInside, chainRules_sumInside]

/-- The patterns of the grammar keep to the text. -/
theorem keeps_sums (greedy : Bool) :
    (sums greedy .none).Only fun _ rule => rule.pattern.KeepsToText := by
  have ofInside : (sumInside .none).Only fun _ rule => rule.pattern.KeepsToText := by
    refine RuleSet.only_of_parts ?_ nofun
    intro entry entered rule listed
    cases List.mem_singleton.mp entered
    cases List.mem_singleton.mp listed
    exact ⟨trivial, nofun⟩
  refine RuleSet.only_of_parts ?_ nofun
  intro entry entered rule listed
  rcases List.mem_cons.mp entered with rfl | second
  · cases List.mem_singleton.mp listed
    exact ⟨trivial, nofun⟩
  · cases List.mem_singleton.mp second
    cases List.mem_singleton.mp listed
    refine ⟨trivial, ?_⟩
    intro inner linked
    cases linked
    exact ofInside

/-- The rule for sums does to a sum the same whether it is greedy or not, and the flag of the first
rule makes no difference to the grammar without a rest. -/
theorem greedy_of_first_sums :
    ((sumRule .none).pattern.KeepsToText ∧ "(a+b)".toList ≠ [] ∧
      splitGreedy (findWith (sumRule .none)) (makeWith (splitWith (sums true .none) 1)
        (sums true .none) "string" (sumRule .none)) [.text "(a+b)".toList] =
      splitEach (findWith (sumRule .none)) (makeWith (splitWith (sums true .none) 1)
        (sums true .none) "string" (sumRule .none)) [.text "(a+b)".toList]) ∧
    ((sums false .none).Only fun _ rule => rule.pattern.KeepsToText) ∧
    FirstFlags (sums false .none) (sums true .none) ∧
    (sums false .none).tokenize "(a+b)".toList = (sums true .none).tokenize "(a+b)".toList :=
  have filled : "(a+b)".toList ≠ [] := List.cons_ne_nil _ _
  ⟨⟨trivial, filled, greedy_of_first.1 _ _ _ _ _ trivial filled⟩, keeps_sums false, firstFlags_sums,
    greedy_of_first.2 _ _ (keeps_sums false) firstFlags_sums _⟩

/-- What the sum `(a+b)` is split into by a plain first rule: the letter behind the operator is a
keyword. -/
def sumWithKeyword : List Tree :=
  [.token .string (.list [.text ['(', 'a'], .token .operator (.text ['+']) [] (some ['+']),
    .token .keyword (.text ['b']) [] (some ['b']), .text [')']]) []
    (some ['(', 'a', '+', 'b', ')'])]

/-- What it is split into by a greedy one. -/
def sumWithoutKeyword : List Tree :=
  [.token .string (.list [.text ['(', 'a'], .token .operator (.text ['+']) [] (some ['+']),
    .text ['b', ')']]) [] (some ['(', 'a', '+', 'b', ')'])]

/-- With the root as the rest of the set in sums, the flag of the rule that is the first to be tried
makes a difference, though the other rules are the same: in `(a+b)` the letter behind the operator
starts a raw text. A plain rule looks into this text by itself; a greedy one looks at all the text
from the first raw item on, finds nothing at its start, and stops. -/
theorem first_flag_behind_rest :
    (sums false .root).entries = [("keyword", [firstWordRule false]), ("string", [sumRule .root])] ∧
    (sums true .root).entries = [("keyword", [{ firstWordRule false with greedy := true }]),
      ("string", [sumRule .root])] ∧
    (sums false .root).tokenize "(a+b)".toList = .ok sumWithKeyword ∧
    (sums true .root).tokenize "(a+b)".toList = .ok sumWithoutKeyword ∧
    sumWithKeyword ≠ sumWithoutKeyword := by
  refine ⟨rfl, rfl, ?_, ?_, ?_⟩
  · cbv
  · cbv
  · simp [sumWithKeyword, sumWithoutKeyword]

end Split

end TemplHighlight
