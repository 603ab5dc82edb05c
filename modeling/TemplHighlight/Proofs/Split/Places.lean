import TemplHighlight.Proofs.Split.Origins

/-!
# The places of items

Items cover a text one after the other, so each of them stands at a place of the text. A plain rule
leaves every token at its place. A greedy rule leaves a token at its place as well, unless it makes a
token that starts in front of that place and ends behind it; what stands at a place in the end and was
not made by the rule has stood there before.
-/

namespace TemplHighlight.Split

/-- An item stands among others at a place of the text that they cover: what is in front of it covers
the text up to this place. -/
inductive StandsAt (item : Tree) : (items : List Tree) → (place : Nat) → Prop where
  | here {later : List Tree} : StandsAt item (item :: later) 0
  | behind {first : Tree} {later : List Tree} {place : Nat} (stands : StandsAt item later place) :
      StandsAt item (first :: later) (first.source.length + place)

/-- A token of a kind starts in front of a place and ends behind it. -/
def Crossed (kind : TokenKind) (items : List Tree) (place : Nat) : Prop :=
  ∃ content aliases cached start,
    StandsAt (.token kind content aliases cached) items start ∧ start < place ∧
      place < start + (Tree.token kind content aliases cached).source.length

variable {item token : Tree} {items front back later result : List Tree} {place : Nat}

/-- An item that stands at a place is one of the items. -/
theorem StandsAt.mem (stands : StandsAt item items place) : item ∈ items := by
  induction stands with
  | here => exact List.mem_cons_self
  | behind _ inductionHypothesis => exact List.mem_cons_of_mem _ inductionHypothesis

/-- More items behind change no place. -/
theorem StandsAt.append_right (stands : StandsAt item front place) (back : List Tree) :
    StandsAt item (front ++ back) place := by
  induction stands with
  | here => exact .here
  | behind _ inductionHypothesis => exact .behind inductionHypothesis

/-- More items in front move all places. -/
theorem StandsAt.append_left (stands : StandsAt item back place) (front : List Tree) :
    StandsAt item (front ++ back) ((Tree.sources front).length + place) := by
  induction front with
  | nil => simpa [Tree.sources] using stands
  | cons first front inductionHypothesis =>
    rw [Tree.sources, List.length_append, Nat.add_assoc]
    exact .behind inductionHypothesis

/-- What stands in two lists, one behind the other, stands in the first or in the second. -/
theorem StandsAt.of_append (stands : StandsAt item (front ++ back) place) :
    StandsAt item front place ∨
      ∃ offset, place = (Tree.sources front).length + offset ∧ StandsAt item back offset := by
  induction front generalizing place with
  | nil => exact .inr ⟨place, (Nat.zero_add place).symm, stands⟩
  | cons first front inductionHypothesis =>
    cases stands with
    | here => exact .inl .here
    | behind behind =>
      rcases inductionHypothesis behind with inFront | ⟨offset, rfl, inBack⟩
      · exact .inl (.behind inFront)
      · refine .inr ⟨offset, ?_, inBack⟩
        rw [Tree.sources, List.length_append, Nat.add_assoc]

/-- A token does not stand at the place of a raw item in front, but behind that item. -/
theorem StandsAt.of_raw {first : Tree} (isToken : token.isToken = true)
    (isRaw : ¬ first.isToken = true) (stands : StandsAt token (first :: later) place) :
    ∃ offset, place = first.source.length + offset ∧ StandsAt token later offset := by
  cases stands with
  | here => exact absurd isToken isRaw
  | behind behind => exact ⟨_, rfl, behind⟩

/-- No item starts inside another one. -/
theorem StandsAt.not_inside {rival : Tree} {start : Nat} (stands : StandsAt item items place)
    (standsToo : StandsAt rival items start) (before : start < place) :
    start + rival.source.length ≤ place := by
  induction stands generalizing start with
  | here => exact absurd before (Nat.not_lt_zero start)
  | @behind first later offset stands inductionHypothesis =>
    cases standsToo with
    | here => omega
    | @behind _ _ otherOffset standsToo =>
      have apart := inductionHypothesis standsToo (by omega)
      omega

/-- Where an item starts, no token crosses. -/
theorem StandsAt.not_crossed (stands : StandsAt item items place) (kind : TokenKind) :
    ¬ Crossed kind items place := by
  rintro ⟨content, aliases, cached, start, standsToo, before, behind⟩
  have apart := stands.not_inside standsToo before
  omega

/-! ## Items that are dropped -/

/-- Dropping characters in front of an item moves its place. -/
theorem StandsAt.dropSource {count : Nat} (stands : StandsAt item items place)
    (short : count ≤ place) : StandsAt item (dropSource count items) (place - count) := by
  fun_induction Split.dropSource count items generalizing place with
  | case1 items => exact stands
  | case2 count => cases stands
  | case3 count first later covered inductionHypothesis =>
    cases stands with
    | here => omega
    | @behind _ _ offset stands =>
      have moved := inductionHypothesis stands (by omega)
      rwa [show first.source.length + offset - (count + 1) =
        offset - (count + 1 - first.source.length) by omega]
  | case4 count first later cut =>
    cases stands with
    | here => omega
    | @behind _ _ offset stands =>
      have moved : StandsAt item (.text (first.source.drop (count + 1)) :: later) _ := .behind stands
      rwa [Tree.source, List.length_drop, show first.source.length - (count + 1) + offset =
        first.source.length + offset - (count + 1) by omega] at moved

/-- A token that is left was there before. -/
theorem StandsAt.of_dropSource {count : Nat} (isToken : token.isToken = true)
    (stands : StandsAt token (Split.dropSource count items) place) :
    StandsAt token items (count + place) := by
  fun_induction Split.dropSource count items generalizing place with
  | case1 items => rwa [Nat.zero_add]
  | case2 count => cases stands
  | case3 count first later covered inductionHypothesis =>
    have moved : StandsAt token (first :: later) _ := .behind (inductionHypothesis stands)
    rwa [show first.source.length + (count + 1 - first.source.length + place) =
      count + 1 + place by omega] at moved
  | case4 count first later cut =>
    obtain ⟨offset, rfl, standsBehind⟩ :=
      stands.of_raw isToken (show ¬ (Tree.text _).isToken = true from Bool.false_ne_true)
    have moved : StandsAt token (first :: later) _ := .behind standsBehind
    rwa [Tree.source, List.length_drop,
      show count + 1 + (first.source.length - (count + 1) + offset) =
        first.source.length + offset by omega]

/-! ## What the steps of a rule do to the places -/

variable {find : Finder} {make : Maker}

/-- No token is among raw items. -/
theorem not_mem_raw (isToken : token.isToken = true) (text : Text) : token ∉ raw text := by
  have isRaw : ∀ item ∈ raw text, ¬ item.isToken = true := raw_forall nofun
  exact fun listed => isRaw token listed isToken

/-- All tokens of a raw text that is split have been made. -/
theorem TextSteps.made_of_mem {text : Text} (steps : TextSteps find make text result)
    (isToken : token.isToken = true) (listed : token ∈ result) : ∃ part, make part = .ok token := by
  induction steps with
  | empty => cases listed
  | whole filled missed =>
    rw [List.mem_singleton.mp listed] at isToken
    cases isToken
  | @cut text start stop made later found ordered makes behind inductionHypothesis =>
    rcases List.mem_append.mp listed with inRaw | listed
    · exact absurd inRaw (not_mem_raw isToken _)
    · rcases List.mem_cons.mp listed with rfl | behind
      · exact ⟨_, makes⟩
      · exact inductionHypothesis behind

/-- A plain rule leaves every token at its place. -/
theorem EachSteps.stands (stays : StaysInside find) (makes : MakesLossless make)
    (steps : EachSteps find make items result) (isToken : token.isToken = true)
    (stands : StandsAt token items place) : StandsAt token result place := by
  induction steps generalizing place with
  | done => exact stands
  | token _ _ inductionHypothesis =>
    cases stands with
    | here => exact .here
    | behind stands => exact .behind (inductionHypothesis stands)
  | @raw first items front result isRaw split behind inductionHypothesis =>
    obtain ⟨offset, rfl, standsBehind⟩ := stands.of_raw isToken isRaw
    have moved := (inductionHypothesis standsBehind).append_left front
    rwa [(split.covers stays makes).sources] at moved

/-- What a plain rule has not made stood at its place before. -/
theorem EachSteps.stood (stays : StaysInside find) (makes : MakesLossless make)
    (steps : EachSteps find make items result) (isToken : token.isToken = true)
    (stands : StandsAt token result place) :
    StandsAt token items place ∨ ∃ part, make part = .ok token := by
  induction steps generalizing place with
  | done => exact .inl stands
  | token _ _ inductionHypothesis =>
    cases stands with
    | here => exact .inl .here
    | behind stands => exact (inductionHypothesis stands).imp_left .behind
  | @raw first items front result isRaw split behind inductionHypothesis =>
    rcases stands.of_append with inFront | ⟨offset, rfl, inBack⟩
    · exact .inr (split.made_of_mem isToken inFront.mem)
    · rw [(split.covers stays makes).sources]
      exact (inductionHypothesis inBack).imp_left .behind

/-- A token that a greedy rule has made starts in front of a place and ends behind it. -/
def MadeAcross (make : Maker) (items : List Tree) (place : Nat) : Prop :=
  ∃ part made start, make part = .ok made ∧ StandsAt made items start ∧ start < place ∧
    place < start + made.source.length

/-- More items in front move a place that is crossed. -/
theorem MadeAcross.append_left (across : MadeAcross make back place) (front : List Tree) :
    MadeAcross make (front ++ back) ((Tree.sources front).length + place) := by
  obtain ⟨part, made, start, makes, stands, before, behind⟩ := across
  exact ⟨part, made, _, makes, stands.append_left front, by omega, by omega⟩

/-- What a greedy rule cuts out of a text, and the raw text in front of it, end where the match
ends. -/
theorem length_sources_cut (makes : MakesLossless make) {text : Text} {start stop : Nat}
    (ordered : start < stop) (inside : stop ≤ text.length)
    (made : make ((text.take stop).drop start) = .ok token) :
    (Tree.sources (raw (text.take start))).length = start ∧ token.source.length = stop - start := by
  obtain ⟨-, source⟩ := makes _ token (matched_filled ordered inside) made
  rw [(covers_raw _).sources, source]
  simp only [List.length_take, List.length_drop]
  omega

/-- A greedy rule leaves a token at its place, or makes one that crosses this place.

Proof: by induction over the steps. A match that is cut out starts in a raw item, and the token
stands behind that item. So the token is among the items that are left, or the match crosses its
place. -/
theorem GreedySteps.stands_or_across (stays : StaysInside find) (makes : MakesLossless make)
    (steps : GreedySteps find make items result) (isToken : token.isToken = true)
    (stands : StandsAt token items place) :
    StandsAt token result place ∨ MadeAcross make result place := by
  induction steps generalizing place with
  | done | none => exact .inl stands
  | @token first items result _ _ inductionHypothesis | @pass first items result =>
    rename_i inductionHypothesis
    cases stands with
    | here => exact .inl .here
    | behind stands =>
      refine (inductionHypothesis stands).imp .behind fun across => ?_
      simpa [Tree.sources] using across.append_left [first]
  | @cut first items result start stop made isRaw found ordered here makesIt behind
      inductionHypothesis =>
    obtain ⟨frontLength, madeLength⟩ :=
      length_sources_cut makes ordered (stays _ _ _ found) makesIt
    have frontStop (rest : Nat) :
        (Tree.sources (raw ((Tree.sources (first :: items)).take start))).length +
          (made.source.length + rest) = stop + rest := by
      omega
    obtain ⟨offset, rfl, -⟩ := stands.of_raw isToken isRaw
    by_cases left : stop ≤ first.source.length + offset
    · rw [← Nat.add_sub_cancel' left, ← frontStop]
      refine (inductionHypothesis (stands.dropSource left)).imp
        (fun stands => (StandsAt.behind stands).append_left _) fun across => ?_
      have moved := across.append_left [made]
      simp only [Tree.sources, List.append_nil] at moved
      exact moved.append_left _
    · refine .inr ⟨_, made, start, makesIt, ?_, by omega, by omega⟩
      have standsThere : StandsAt made (made :: result) 0 := .here
      have moved := standsThere.append_left (raw ((Tree.sources (first :: items)).take start))
      rwa [frontLength] at moved
  | @later first items passed behind result start stop isRaw found ordered spanned some rest
      inductionHypothesis =>
    have split : passed ++ behind = first :: items := by
      rw [← spanBefore_append start (first :: items), spanned]
    rw [← split] at stands
    rcases stands.of_append with inPassed | ⟨offset, rfl, inBehind⟩
    · exact .inl (inPassed.append_right result)
    · exact (inductionHypothesis inBehind).imp (·.append_left passed) (·.append_left passed)

/-- What a greedy rule has not made stood at its place before. -/
theorem GreedySteps.stood (stays : StaysInside find) (makes : MakesLossless make)
    (steps : GreedySteps find make items result) (isToken : token.isToken = true)
    (stands : StandsAt token result place) :
    StandsAt token items place ∨ ∃ part, make part = .ok token := by
  induction steps generalizing place with
  | done | none => exact .inl stands
  | @token first items result _ _ inductionHypothesis | @pass first items result =>
    rename_i inductionHypothesis
    cases stands with
    | here => exact .inl .here
    | behind stands => exact (inductionHypothesis stands).imp_left .behind
  | @cut first items result start stop made isRaw found ordered here makesIt behind
      inductionHypothesis =>
    obtain ⟨frontLength, madeLength⟩ :=
      length_sources_cut makes ordered (stays _ _ _ found) makesIt
    rcases stands.of_append with inRaw | ⟨offset, rfl, inRest⟩
    · exact absurd inRaw.mem (not_mem_raw isToken _)
    · cases inRest with
      | here => exact .inr ⟨_, makesIt⟩
      | @behind _ _ offset inRest =>
        refine (inductionHypothesis inRest).imp_left fun stood => ?_
        have moved := stood.of_dropSource isToken
        rwa [frontLength, madeLength,
          show start + (stop - start + offset) = stop + offset by omega]
  | @later first items passed behind result start stop isRaw found ordered spanned some rest
      inductionHypothesis =>
    have split : passed ++ behind = first :: items := by
      rw [← spanBefore_append start (first :: items), spanned]
    rw [← split]
    rcases stands.of_append with inPassed | ⟨offset, rfl, inBehind⟩
    · exact .inl (inPassed.append_right behind)
    · exact (inductionHypothesis inBehind).imp_left (·.append_left passed)

/-! ## What rules do to the places -/

variable {splitInside : RuleSet → Text → Except SplitError (List Tree)} {root : RuleSet}
  {name : String} {rule : Rule} {kind made : TokenKind} {content : Tree} {aliases : List String}
  {cached : Option Text}

/-- A plain rule leaves every token at its place. -/
theorem applyRule_stands (plain : rule.greedy = false) (stays : StaysInside (findWith rule))
    (makes : MakesLossless make) (applied : applyRule rule make items = .ok result)
    (isToken : token.isToken = true) (stands : StandsAt token items place) :
    StandsAt token result place := by
  rw [applyRule, plain] at applied
  exact (steps_of_splitEach applied).stands stays makes isToken stands

/-- What a rule has not made stood at its place before. -/
theorem applyRule_stood (stays : StaysInside (findWith rule)) (makes : MakesLossless make)
    (applied : applyRule rule make items = .ok result) (isToken : token.isToken = true)
    (stands : StandsAt token result place) :
    StandsAt token items place ∨ ∃ part, make part = .ok token := by
  unfold applyRule at applied
  split at applied
  · exact (steps_of_splitGreedy applied).stood stays makes isToken stands
  · exact (steps_of_splitEach applied).stood stays makes isToken stands

/-- A token of another kind than those of a rule stood at its place before. -/
theorem applyRule_stood_other (named : rule.kindFor? name = some made) (other : made ≠ kind)
    (stays : StaysInside (findWith rule))
    (makes : MakesLossless (makeWith splitInside root name rule))
    (applied : applyRule rule (makeWith splitInside root name rule) items = .ok result)
    (stands : StandsAt (.token kind content aliases cached) result place) :
    StandsAt (.token kind content aliases cached) items place := by
  rcases applyRule_stood stays makes applied rfl stands with stood | ⟨part, makesIt⟩
  · exact stood
  · obtain ⟨inner, same⟩ := token_of_makeWith named makesIt
    cases same
    exact absurd rfl other

/-- A token of another kind than those of a greedy rule stays at its place if and only if no token of
the rule crosses this place. -/
theorem applyRule_stands_iff (greedy : rule.greedy = true) (named : rule.kindFor? name = some made)
    (stays : StaysInside (findWith rule))
    (makes : MakesLossless (makeWith splitInside root name rule))
    (applied : applyRule rule (makeWith splitInside root name rule) items = .ok result)
    (isToken : token.isToken = true) (stands : StandsAt token items place) :
    StandsAt token result place ↔ ¬ Crossed made result place := by
  refine ⟨fun stays => stays.not_crossed made, fun notCrossed => ?_⟩
  rw [applyRule, if_pos greedy] at applied
  rcases (steps_of_splitGreedy applied).stands_or_across stays makes isToken stands with
    stands | ⟨part, crossing, start, makesIt, standsToo, before, behind⟩
  · exact stands
  · obtain ⟨inner, rfl⟩ := token_of_makeWith named makesIt
    exact absurd ⟨inner, _, _, start, standsToo, before, behind⟩ notCrossed

end TemplHighlight.Split
