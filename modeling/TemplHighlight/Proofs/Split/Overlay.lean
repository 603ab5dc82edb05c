import TemplHighlight.Proofs.Split.Places

/-!
# Tokens laid over items

A greedy rule lays new tokens over the items that are there. Where it may put them, and what becomes
of the items, is said in places of the text: a new token starts in raw text, or in what an earlier
new token has left of a token that it cut. A token of the items stays at its place, unless a new one
starts in front of it and ends behind that place. Outside of the new tokens the text is raw where it
was raw, and where a token was cut.

The main statement is that what a greedy rule returns is such an overlay, whatever the items are.
-/

namespace TemplHighlight.Split

/-- Whether the text is raw at a place: the item that covers the place is no token. -/
def isRawAt : List Tree → (place : Nat) → Bool
  | [], _ => false
  | item :: later, place =>
    if place < item.source.length then !item.isToken else isRawAt later (place - item.source.length)

/-- A token that is laid over the items at a place. -/
structure Laid where
  start : Nat
  token : Tree

namespace Laid

/-- The place behind the token. -/
def stop (laid : Laid) : Nat := laid.start + laid.token.source.length

/-- The token covers a place. -/
def Covers (laid : Laid) (place : Nat) : Prop := laid.start ≤ place ∧ place < laid.stop

/-- The token starts in front of a place and ends behind it. -/
def Crosses (laid : Laid) (place : Nat) : Prop := laid.start < place ∧ place < laid.stop

/-- A place lies in what the token leaves of a token of the items: that one starts inside of it and
ends behind it, and the place is in the remainder. -/
def Leaves (laid : Laid) (items : List Tree) (place : Nat) : Prop :=
  ∃ token start, token.isToken = true ∧ StandsAt token items start ∧ laid.Crosses start ∧
    laid.stop ≤ place ∧ place < start + token.source.length

/-- The token with more text in front. -/
def shift (count : Nat) (laid : Laid) : Laid := { laid with start := count + laid.start }

/-- Text in front moves the place behind the token as well. -/
theorem stop_shift (count : Nat) (laid : Laid) : (laid.shift count).stop = count + laid.stop :=
  Nat.add_assoc count laid.start laid.token.source.length

end Laid

/-- The result is the items with new tokens laid over them. -/
structure Overlay (items : List Tree) (new : List Laid) (result : List Tree) : Prop where
  sources : Tree.sources result = Tree.sources items
  /-- The new tokens stand in the result, one behind the other. -/
  apart : new.Pairwise fun one other => one.stop ≤ other.start
  placed : ∀ laid ∈ new, laid.token.isToken = true ∧ StandsAt laid.token result laid.start
  /-- Each of them starts in raw text, or in what another one in front of it has left of a token. -/
  starts : ∀ laid ∈ new,
    isRawAt items laid.start = true ∨ ∃ earlier ∈ new, earlier.Leaves items laid.start
  /-- A token of the items is at its place, or a new one crosses this place. -/
  kept : ∀ token place, token.isToken = true → StandsAt token items place →
    StandsAt token result place ∨ ∃ laid ∈ new, laid.Crosses place
  /-- There are no other tokens than those of the items and the new ones. -/
  known : ∀ token place, token.isToken = true → StandsAt token result place →
    StandsAt token items place ∨ ⟨place, token⟩ ∈ new
  /-- Outside of the new tokens, the text is raw where it was raw or where a token was cut. -/
  raw : ∀ place, (∀ laid ∈ new, ¬ laid.Covers place) →
    (isRawAt result place = true ↔
      isRawAt items place = true ∨ ∃ laid ∈ new, laid.Leaves items place)

variable {item token first : Tree} {items front back result : List Tree} {place : Nat}
  {new : List Laid}

/-! ## Where text is raw -/

/-- An item ends inside the text of the items. -/
theorem StandsAt.bounded (stands : StandsAt item items place) :
    place + item.source.length ≤ (Tree.sources items).length := by
  induction stands with
  | here =>
    rw [Tree.sources, List.length_append]
    omega
  | behind _ inductionHypothesis =>
    rw [Tree.sources, List.length_append]
    omega

/-- The text of two lists is raw where the one or the other is. -/
theorem isRawAt_append (front back : List Tree) (place : Nat) :
    isRawAt (front ++ back) place =
      if place < (Tree.sources front).length then isRawAt front place
      else isRawAt back (place - (Tree.sources front).length) := by
  induction front generalizing place with
  | nil => rfl
  | cons first front inductionHypothesis =>
    rw [List.cons_append, isRawAt, isRawAt, Tree.sources, List.length_append, inductionHypothesis]
    by_cases here : place < first.source.length
    · rw [if_pos here, if_pos here, if_pos (by omega)]
    · rw [if_neg here, if_neg here, Nat.sub_sub]
      by_cases inFront : place < first.source.length + (Tree.sources front).length
      · rw [if_pos inFront, if_pos (by omega)]
      · rw [if_neg inFront, if_neg (by omega)]

/-- Behind the text in front, the text is raw where that behind it is. -/
theorem isRawAt_append_right (front back : List Tree) (place : Nat) :
    isRawAt (front ++ back) ((Tree.sources front).length + place) = isRawAt back place := by
  rw [isRawAt_append, if_neg (by omega), Nat.add_sub_cancel_left]

/-- A raw text is raw at its places. -/
theorem isRawAt_raw {text : Text} (inside : place < text.length) :
    isRawAt (raw text) place = true := by
  cases text with
  | nil => cases inside
  | cons c rest => exact if_pos inside

/-- What is left when characters are dropped is raw where it was raw, and where a token was cut. -/
theorem isRawAt_dropSource {count : Nat} :
    isRawAt (dropSource count items) place = true ↔ isRawAt items (count + place) = true ∨
      ∃ token start, token.isToken = true ∧ StandsAt token items start ∧ start < count ∧
        count + place < start + token.source.length := by
  fun_induction dropSource count items generalizing place with
  | case1 items =>
    rw [Nat.zero_add]
    refine ⟨.inl, fun either => either.elim id ?_⟩
    rintro ⟨_, _, _, _, less, _⟩
    exact absurd less (Nat.not_lt_zero _)
  | case2 count =>
    constructor
    · intro impossible
      cases impossible
    · rintro (impossible | ⟨_, _, _, stands, _⟩)
      · cases impossible
      · cases stands
  | case3 count first later short inductionHypothesis =>
    rw [inductionHypothesis, isRawAt, if_neg (by omega),
      show count + 1 + place - first.source.length =
        count + 1 - first.source.length + place by omega]
    refine or_congr_right ⟨?_, ?_⟩
    · rintro ⟨token, start, isToken, stands, less, inside⟩
      exact ⟨token, _, isToken, .behind stands, by omega, by omega⟩
    · rintro ⟨token, start, isToken, stands, less, inside⟩
      cases stands with
      | here => omega
      | behind stands => exact ⟨token, _, isToken, stands, by omega, by omega⟩
  | case4 count first later cut =>
    rw [isRawAt, isRawAt, Tree.source, List.length_drop]
    by_cases inFirst : count + 1 + place < first.source.length
    · rw [if_pos (by omega), if_pos inFirst]
      cases isToken : first.isToken with
      | false => simp [Tree.isToken]
      | true => simpa [Tree.isToken] using ⟨first, isToken, 0, .here, by omega, by omega⟩
    · rw [if_neg (by omega), if_neg inFirst,
        show place - (first.source.length - (count + 1)) =
          count + 1 + place - first.source.length by omega]
      refine ⟨.inl, fun either => either.elim id ?_⟩
      rintro ⟨token, start, isToken, stands, less, inside⟩
      cases stands with
      | here => exact absurd inside (by omega)
      | behind stands => omega

/-! ## Items in front -/

/-- What a token leaves of the items behind others is what it leaves of them behind these. -/
theorem Laid.leaves_append {laid : Laid} :
    (laid.shift (Tree.sources front).length).Leaves (front ++ back)
        ((Tree.sources front).length + place) ↔ laid.Leaves back place := by
  constructor
  · rintro ⟨token, start, isToken, stands, ⟨before, inside⟩, behind, within⟩
    rw [stop_shift] at inside behind
    rcases stands.of_append with inFront | ⟨offset, rfl, inBack⟩
    · have bounded := inFront.bounded
      simp only [shift] at before
      omega
    · exact ⟨token, offset, isToken, inBack, ⟨by simpa [shift] using before, by omega⟩, by omega,
        by omega⟩
  · rintro ⟨token, start, isToken, stands, ⟨before, inside⟩, behind, within⟩
    refine ⟨token, _, isToken, stands.append_left front, ⟨Nat.add_lt_add_left before _, ?_⟩, ?_, ?_⟩
    · rw [stop_shift]
      exact Nat.add_lt_add_left inside _
    · rw [stop_shift]
      exact Nat.add_le_add_left behind _
    · omega

/-- Nothing is laid over items that stay as they are. -/
theorem Overlay.refl (items : List Tree) : Overlay items [] items where
  sources := rfl
  apart := .nil
  placed := nofun
  starts := nofun
  kept _ _ _ stands := .inl stands
  known _ _ _ stands := .inl stands
  raw _ _ := ⟨.inl, fun either => either.elim id nofun⟩

/-- Items in front stay as they are, and move everything behind them. -/
theorem Overlay.prepend (front : List Tree) (overlay : Overlay items new result) :
    Overlay (front ++ items) (new.map (Laid.shift (Tree.sources front).length))
      (front ++ result) where
  sources := by rw [Tree.sources_append, Tree.sources_append, overlay.sources]
  apart := by
    refine List.pairwise_map.mpr (overlay.apart.imp fun {one other} apart => ?_)
    rw [Laid.stop_shift]
    exact Nat.add_le_add_left apart _
  placed := by
    refine List.forall_mem_map.mpr fun laid member => ?_
    obtain ⟨isToken, stands⟩ := overlay.placed laid member
    exact ⟨isToken, stands.append_left front⟩
  starts := by
    refine List.forall_mem_map.mpr fun laid member => ?_
    refine (overlay.starts laid member).imp (fun isRaw => ?_) ?_
    · exact (isRawAt_append_right front items laid.start).trans isRaw
    · rintro ⟨earlier, listed, leaves⟩
      exact ⟨_, List.mem_map_of_mem listed, Laid.leaves_append.mpr leaves⟩
  kept token place isToken stands := by
    rcases stands.of_append with inFront | ⟨offset, rfl, behind⟩
    · exact .inl (inFront.append_right result)
    · refine (overlay.kept token offset isToken behind).imp (·.append_left front) ?_
      rintro ⟨laid, member, before, inside⟩
      refine ⟨_, List.mem_map_of_mem member, Nat.add_lt_add_left before _, ?_⟩
      rw [Laid.stop_shift]
      exact Nat.add_lt_add_left inside _
  known token place isToken stands := by
    rcases stands.of_append with inFront | ⟨offset, rfl, behind⟩
    · exact .inl (inFront.append_right items)
    · exact (overlay.known token offset isToken behind).imp (·.append_left front)
        fun member => List.mem_map_of_mem (f := Laid.shift _) member
  raw place uncovered := by
    by_cases inFront : place < (Tree.sources front).length
    · rw [isRawAt_append, isRawAt_append, if_pos inFront, if_pos inFront]
      refine ⟨.inl, fun either => either.elim id ?_⟩
      rintro ⟨_, member, leaves⟩
      obtain ⟨laid, -, rfl⟩ := List.mem_map.mp member
      obtain ⟨_, _, _, _, _, behind, _⟩ := leaves
      rw [Laid.stop_shift] at behind
      omega
    · obtain ⟨offset, rfl⟩ := Nat.exists_eq_add_of_le (Nat.le_of_not_lt inFront)
      rw [isRawAt_append_right, isRawAt_append_right, overlay.raw offset]
      · refine or_congr_right ⟨?_, ?_⟩
        · rintro ⟨laid, member, leaves⟩
          exact ⟨_, List.mem_map_of_mem member, Laid.leaves_append.mpr leaves⟩
        · rintro ⟨_, member, leaves⟩
          obtain ⟨laid, listed, rfl⟩ := List.mem_map.mp member
          exact ⟨laid, listed, Laid.leaves_append.mp leaves⟩
      · intro laid member ⟨start, stop⟩
        refine uncovered _ (List.mem_map_of_mem member) ⟨Nat.add_le_add_left start _, ?_⟩
        rw [Laid.stop_shift]
        exact Nat.add_lt_add_left stop _

/-! ## A match that is cut out -/

/-- What a token leaves of items without their first characters, it leaves of the items. -/
theorem Laid.leaves_dropSource {laid : Laid} {count : Nat} :
    (laid.shift count).Leaves items (count + place) ↔
      laid.Leaves (dropSource count items) place := by
  constructor
  · rintro ⟨token, start, isToken, stands, ⟨before, inside⟩, behind, within⟩
    rw [stop_shift] at inside behind
    simp only [shift] at before
    exact ⟨token, start - count, isToken, stands.dropSource (by omega), ⟨by omega, by omega⟩,
      by omega, by omega⟩
  · rintro ⟨token, start, isToken, stands, ⟨before, inside⟩, behind, within⟩
    refine ⟨token, _, isToken, stands.of_dropSource isToken, ⟨Nat.add_lt_add_left before _, ?_⟩,
      ?_, ?_⟩
    · rw [stop_shift]
      exact Nat.add_lt_add_left inside _
    · rw [stop_shift]
      exact Nat.add_le_add_left behind _
    · omega

section

variable {text : Text}

/-- A token stands right behind the raw text in front of it. -/
theorem StandsAt.led (text : Text) (token : Tree) (back : List Tree) :
    StandsAt token (raw text ++ token :: back) text.length := by
  have stands : StandsAt token (token :: back) 0 := .here
  have moved := stands.append_left (raw text)
  rwa [(covers_raw text).sources] at moved

/-- Raw text and a token in front move a place. -/
theorem StandsAt.behind_led (text : Text) (token : Tree) (stands : StandsAt item back place) :
    StandsAt item (raw text ++ token :: back) (text.length + token.source.length + place) := by
  have behind : StandsAt item (token :: back) (token.source.length + place) := .behind stands
  have moved := behind.append_left (raw text)
  rwa [(covers_raw text).sources, ← Nat.add_assoc] at moved

/-- A token that stands behind raw text and a token, or is that token. -/
theorem StandsAt.of_led (isToken : item.isToken = true)
    (stands : StandsAt item (raw text ++ token :: back) place) :
    place = text.length ∧ item = token ∨
      ∃ offset, place = text.length + token.source.length + offset ∧ StandsAt item back offset := by
  rcases stands.of_append with inRaw | ⟨offset, rfl, behind⟩
  · exact absurd inRaw.mem (not_mem_raw isToken text)
  · rw [(covers_raw text).sources]
    cases behind with
    | here => exact .inl ⟨Nat.add_zero _, rfl⟩
    | behind behind => exact .inr ⟨_, (Nat.add_assoc ..).symm, behind⟩

/-- Outside of the token, the text is raw in front of it, and where it is raw behind it. -/
theorem isRawAt_led (outside : ¬ Laid.Covers ⟨text.length, token⟩ place) :
    isRawAt (raw text ++ token :: back) place = true ↔
      place < text.length ∨
        ∃ offset, place = text.length + token.source.length + offset ∧
          isRawAt back offset = true := by
  simp only [Laid.Covers, Laid.stop] at outside
  rw [isRawAt_append, (covers_raw text).sources]
  by_cases inFront : place < text.length
  · rw [if_pos inFront, isRawAt_raw inFront]
    exact ⟨fun _ => .inl inFront, fun _ => rfl⟩
  · rw [if_neg inFront, isRawAt, if_neg (by omega)]
    constructor
    · exact fun isRaw => .inr ⟨_, by omega, isRaw⟩
    · rintro (less | ⟨offset, rfl, isRaw⟩)
      · exact absurd less inFront
      · rwa [show text.length + token.source.length + offset - text.length - token.source.length =
          offset by omega]

end

section

variable {text : Text} (isRaw : ¬ first.isToken = true) (here : text.length < first.source.length)
include isRaw here

/-- A token that is cut stands behind the raw item in front, so it is crossed. -/
theorem crosses_of_raw (isToken : item.isToken = true)
    (stands : StandsAt item (first :: back) place)
    (cut : place < text.length + token.source.length) :
    Laid.Crosses ⟨text.length, token⟩ place := by
  obtain ⟨offset, rfl, -⟩ := stands.of_raw isToken isRaw
  exact ⟨by simp only; omega, cut⟩

/-- What is left of the items behind the token is raw where it was raw, and where the token leaves
something of one that it cuts. -/
theorem isRawAt_behind_led :
    isRawAt (dropSource (text.length + token.source.length) (first :: back)) place = true ↔
      isRawAt (first :: back) (text.length + token.source.length + place) = true ∨
        Laid.Leaves ⟨text.length, token⟩ (first :: back)
          (text.length + token.source.length + place) := by
  rw [isRawAt_dropSource]
  refine or_congr_right ⟨?_, ?_⟩
  · rintro ⟨other, start, isToken, stands, less, within⟩
    exact ⟨other, start, isToken, stands, crosses_of_raw isRaw here isToken stands less,
      Nat.le_add_right _ _, within⟩
  · rintro ⟨other, start, isToken, stands, ⟨-, less⟩, -, within⟩
    exact ⟨other, start, isToken, stands, less, within⟩

/-- A match that starts in a raw item in front is cut out, and what is left of the items has tokens
laid over it in turn. -/
theorem Overlay.cut (isToken : token.isToken = true)
    (source : text ++ token.source ++
        (Tree.sources (first :: back)).drop (text.length + token.source.length) =
      Tree.sources (first :: back))
    (rest : Overlay (dropSource (text.length + token.source.length) (first :: back)) new result) :
    Overlay (first :: back)
      (⟨text.length, token⟩ :: new.map (Laid.shift (text.length + token.source.length)))
      (Split.raw text ++ token :: result) where
  sources := by
    rw [Tree.sources_append, (covers_raw text).sources, Tree.sources, rest.sources,
      sources_dropSource, ← List.append_assoc]
    exact source
  apart := by
    refine List.pairwise_cons.mpr ⟨List.forall_mem_map.mpr fun laid _ => Nat.le_add_right _ _, ?_⟩
    refine List.pairwise_map.mpr (rest.apart.imp fun {one other} apart => ?_)
    rw [Laid.stop_shift]
    exact Nat.add_le_add_left apart _
  placed := by
    refine List.forall_mem_cons.mpr
      ⟨⟨isToken, .led text token result⟩, List.forall_mem_map.mpr fun laid member => ?_⟩
    obtain ⟨isToken, stands⟩ := rest.placed laid member
    exact ⟨isToken, stands.behind_led text token⟩
  starts := by
    refine List.forall_mem_cons.mpr ⟨.inl ?_, List.forall_mem_map.mpr fun laid member => ?_⟩
    · rw [isRawAt, if_pos here]
      simpa using isRaw
    · rcases rest.starts laid member with isRawThere | ⟨earlier, listed, leaves⟩
      · refine ((isRawAt_behind_led isRaw here).mp isRawThere).imp_right fun leaves => ?_
        exact ⟨_, List.mem_cons_self, leaves⟩
      · exact .inr ⟨_, List.mem_cons_of_mem _ (List.mem_map_of_mem listed),
          Laid.leaves_dropSource.mpr leaves⟩
  kept other place isOther stands := by
    by_cases cut : place < text.length + token.source.length
    · exact .inr ⟨_, List.mem_cons_self, crosses_of_raw isRaw here isOther stands cut⟩
    · obtain ⟨offset, rfl⟩ := Nat.exists_eq_add_of_le (Nat.le_of_not_lt cut)
      have left := stands.dropSource (Nat.le_add_right _ offset)
      rw [Nat.add_sub_cancel_left] at left
      refine (rest.kept other offset isOther left).imp (·.behind_led text token) ?_
      rintro ⟨laid, member, before, inside⟩
      refine ⟨_, List.mem_cons_of_mem _ (List.mem_map_of_mem member),
        Nat.add_lt_add_left before _, ?_⟩
      rw [Laid.stop_shift]
      exact Nat.add_lt_add_left inside _
  known other place isOther stands := by
    rcases stands.of_led isOther with ⟨rfl, rfl⟩ | ⟨offset, rfl, behind⟩
    · exact .inr List.mem_cons_self
    · refine (rest.known other offset isOther behind).imp (·.of_dropSource isOther) fun member => ?_
      exact List.mem_cons_of_mem _ (List.mem_map_of_mem (f := Laid.shift _) member)
  raw place uncovered := by
    obtain ⟨outside, uncovered⟩ := List.forall_mem_cons.mp uncovered
    rw [isRawAt_led outside]
    by_cases inFront : place < text.length
    · refine ⟨fun _ => .inl ?_, fun _ => .inl inFront⟩
      rw [isRawAt, if_pos (by omega)]
      simpa using isRaw
    · obtain ⟨offset, rfl⟩ : ∃ offset, place = text.length + token.source.length + offset :=
        Nat.exists_eq_add_of_le (Nat.le_of_not_lt fun less =>
          outside ⟨Nat.le_of_not_lt inFront, less⟩)
      have uncoveredThere : ∀ laid ∈ new, ¬ laid.Covers offset := by
        rintro laid member ⟨start, stop⟩
        refine uncovered _ (List.mem_map_of_mem member) ⟨Nat.add_le_add_left start _, ?_⟩
        rw [Laid.stop_shift]
        exact Nat.add_lt_add_left stop _
      have behind := rest.raw offset uncoveredThere
      rw [isRawAt_behind_led isRaw here] at behind
      constructor
      · rintro (less | ⟨_, same, isRawThere⟩)
        · exact absurd less inFront
        · obtain rfl := Nat.add_left_cancel same
          rcases behind.mp isRawThere with (isRawHere | leaves) | ⟨laid, member, leaves⟩
          · exact .inl isRawHere
          · exact .inr ⟨_, List.mem_cons_self, leaves⟩
          · exact .inr ⟨_, List.mem_cons_of_mem _ (List.mem_map_of_mem member),
              Laid.leaves_dropSource.mpr leaves⟩
      · refine fun either => .inr ⟨offset, rfl, behind.mpr ?_⟩
        rcases either with isRawHere | ⟨_, member, leaves⟩
        · exact .inl (.inl isRawHere)
        · rcases List.mem_cons.mp member with rfl | member
          · exact .inl (.inr leaves)
          · obtain ⟨laid, listed, rfl⟩ := List.mem_map.mp member
            exact .inr ⟨laid, listed, Laid.leaves_dropSource.mp leaves⟩

end

/-! ## What a greedy rule does -/

variable {find : Finder} {make : Maker}

/-- A maker makes tokens that carry the texts that they are made of. -/
def MakesTokens (make : Maker) : Prop :=
  ∀ part token, make part = .ok token → token.isToken = true ∧ token.source = part

/-- A greedy rule lays tokens over the items, each of which it has made of the text at its place. -/
theorem GreedySteps.overlay (stays : StaysInside find) (makes : MakesTokens make)
    (steps : GreedySteps find make items result) :
    ∃ new, Overlay items new result ∧ ∀ laid ∈ new, make laid.token.source = .ok laid.token := by
  induction steps with
  | done => exact ⟨[], .refl [], nofun⟩
  | none isRaw missed => exact ⟨[], .refl _, nofun⟩
  | @token first items result isToken behind inductionHypothesis =>
    obtain ⟨new, overlay, made⟩ := inductionHypothesis
    exact ⟨_, overlay.prepend [first], List.forall_mem_map.mpr made⟩
  | @pass first items result start stop isRaw found empty behind inductionHypothesis =>
    obtain ⟨new, overlay, made⟩ := inductionHypothesis
    exact ⟨_, overlay.prepend [first], List.forall_mem_map.mpr made⟩
  | @cut first items result start stop token isRaw found ordered here made behind
      inductionHypothesis =>
    obtain ⟨new, overlay, laterMade⟩ := inductionHypothesis
    obtain ⟨isToken, source⟩ := makes _ _ made
    have inside := stays _ _ _ found
    have frontLength : ((Tree.sources (first :: items)).take start).length = start := by
      rw [List.length_take]
      omega
    have width : start + token.source.length = stop := by
      rw [source, List.length_drop, List.length_take]
      omega
    have whole := cut_text (Tree.sources (first :: items)) ordered
    have rest : Overlay (dropSource (((Tree.sources (first :: items)).take start).length +
        token.source.length) (first :: items)) new result := by
      rwa [frontLength, width]
    refine ⟨_, .cut isRaw (by rwa [frontLength]) isToken ?_ rest, ?_⟩
    · rw [frontLength, width, source, List.append_assoc]
      exact whole
    · refine List.forall_mem_cons.mpr ⟨?_, List.forall_mem_map.mpr laterMade⟩
      rw [← source] at made
      exact made
  | @later first items passed behind result start stop isRaw found ordered spanned some rest
      inductionHypothesis =>
    obtain ⟨new, overlay, made⟩ := inductionHypothesis
    have split : passed ++ behind = first :: items := by
      rw [← spanBefore_append start (first :: items), spanned]
    rw [← split]
    exact ⟨_, overlay.prepend passed, List.forall_mem_map.mpr made⟩

/-- A new token and a token that it crosses do not both stand in the result. -/
theorem Overlay.not_stands (overlay : Overlay items new result) {laid : Laid} (listed : laid ∈ new)
    (crosses : laid.Crosses place) : ¬ StandsAt token result place := by
  intro stands
  have apart := stands.not_inside (overlay.placed laid listed).2 crosses.1
  exact absurd crosses.2 (Nat.not_lt.mpr apart)

/-- The token of a rule carries the text that it is made of. -/
theorem makeWith_tokens (splitInside : RuleSet → Text → Except SplitError (List Tree))
    (root : RuleSet) (name : String) (rule : Rule) :
    MakesTokens (makeWith splitInside root name rule) := by
  intro part token made
  cases steps_of_makeWith made with
  | leaf => exact ⟨rfl, rfl⟩
  | root => exact ⟨rfl, rfl⟩
  | inside => exact ⟨rfl, rfl⟩

/-- Where a greedy rule puts its tokens. For all items and every greedy rule whose pattern keeps to
the text, the result is the items with new tokens laid over them, which the rule has made of the
text at their places: each starts in raw text, or in what an earlier one has left of a token that it
cut; a token of the items stands at its place if and only if no new one crosses this place; and
outside of the new tokens, the text is raw exactly where it was raw or where such a remainder lies.

Proof: by induction over the steps of the rule, for all items that are left at a step. A match is
cut out of the raw item in front; what is left behind it are the items without their first
characters, of which one may be the remainder of a token. So what is raw there was raw in the items,
or is left of a token that the match has cut. -/
theorem greedy_overlays {rule : Rule} (greedy : rule.greedy = true)
    (keeps : rule.pattern.KeepsToText)
    {splitInside : RuleSet → Text → Except SplitError (List Tree)} {root : RuleSet} {name : String}
    {items result : List Tree}
    (applied : applyRule rule (makeWith splitInside root name rule) items = .ok result) :
    ∃ new, Overlay items new result ∧
      (∀ laid ∈ new, makeWith splitInside root name rule laid.token.source = .ok laid.token) ∧
      ∀ laid ∈ new, ∀ place, laid.Crosses place → ∀ token, ¬ StandsAt token result place := by
  rw [applyRule, if_pos greedy] at applied
  obtain ⟨new, overlay, made⟩ := (steps_of_splitGreedy applied).overlay (findWith_stays keeps)
    (makeWith_tokens splitInside root name rule)
  exact ⟨new, overlay, made, fun laid listed place crosses token =>
    overlay.not_stands listed crosses⟩

/-- A rule that takes the second and the third of at least three characters. -/
def secondAndThird : Rule := { pattern := .window 1 3, greedy := true }

/-- A text of six characters, of which the middle ones are a token. -/
def tokenInside : List Tree :=
  [.text ['a', 'b'], .token .keyword (.text ['c', 'd', 'e']) [] (some ['c', 'd', 'e']), .text ['f']]

/-- What the rule makes of it. -/
def tokenCut : List Tree :=
  [.text ['a'], .token .string (.text ['b', 'c']) [] (some ['b', 'c']), .text ['d'],
    .token .string (.text ['e', 'f']) [] (some ['e', 'f'])]

/-- The first match cuts the token, and the second starts in what is left of it. -/
theorem greedy_overlays_remainder :
    secondAndThird.greedy = true ∧ secondAndThird.pattern.KeepsToText ∧
      applyRule secondAndThird (makeWith (splitWith (.empty "none") 0) (.empty "none") "string"
        secondAndThird) tokenInside = .ok tokenCut ∧
      ∃ new, Overlay tokenInside new tokenCut ∧
        (∀ laid ∈ new, makeWith (splitWith (.empty "none") 0) (.empty "none") "string"
          secondAndThird laid.token.source = .ok laid.token) ∧
        ∀ laid ∈ new, ∀ place, laid.Crosses place → ∀ token, ¬ StandsAt token tokenCut place := by
  have applied : applyRule secondAndThird (makeWith (splitWith (.empty "none") 0) (.empty "none")
      "string" secondAndThird) tokenInside = .ok tokenCut := by
    cbv
  exact ⟨rfl, Pattern.window_keeps 1 3, applied,
    greedy_overlays rfl (Pattern.window_keeps 1 3) applied⟩

end TemplHighlight.Split
