import TemplHighlight.Proofs.Split.Overlay
import TemplHighlight.Proofs.Split.Total

/-!
# A greedy rule as a loop over indices

A greedy rule can be run as a loop that keeps one list of items and the index of the item whose turn
it is. A round of the loop passes an item, moves on to the item in which the match starts, or
replaces the items that the match covers by what is left of the first, the new token and what is
left of the last; so the list may get shorter or longer, and the index moves at the same time. The
places of items are found by adding up their lengths, and every list is read by index. Reading
outside of a list ends the loop, as an outcome of its own.

The main statement is that this never happens: if matches lie inside the text, then every round that
goes on leaves less behind the index than there was, and the loop ends with what `splitGreedy`
returns.
-/

namespace TemplHighlight.Split

/-! ## The loop -/

/-- The items as they are now, and the index of the item whose turn it is. -/
structure Turn where
  items : List Tree
  index : Nat

/-- What comes of a round. -/
inductive Round where
  | next (turn : Turn)
  | done (items : List Tree)
  | failed (error : SplitError)
  /-- A list was read by an index that it does not have. -/
  | outside

/-- The lengths of the texts of some items. -/
def lengths (items : List Tree) : List Nat := items.map (·.source.length)

/-- The index of the length that covers a place, of those from `index` on, if there are `passed`
characters in front of these. -/
def indexAt? (lengths : List Nat) (place passed index : Nat) : Option Nat :=
  match _here : lengths[index]? with
  | none => none
  | some length =>
    if passed + length ≤ place then indexAt? lengths place (passed + length) (index + 1)
    else some index
termination_by lengths.length - index
decreasing_by
  have inside : index < lengths.length := (List.getElem?_eq_some_iff.mp _here).1
  omega

/-- The index up to which a match covers the items, and the number of characters up to the end of
the item there. The items up to `index` have `covered` characters. -/
def lastCovered? (lengths : List Nat) (stop index covered : Nat) : Option (Nat × Nat) :=
  if covered < stop then
    match _next : lengths[index + 1]? with
    | none => none
    | some length => lastCovered? lengths stop (index + 1) (covered + length)
  else some (index, covered)
termination_by lengths.length - index
decreasing_by
  have inside : index + 1 < lengths.length := (List.getElem?_eq_some_iff.mp _next).1
  omega

namespace Turn

/-- The items from the index on. -/
def left (turn : Turn) : List Tree := turn.items.drop turn.index

/-- The items in front of the index. -/
def behind (turn : Turn) : List Tree := turn.items.take turn.index

/-- The turn of the item that stands some items further on. -/
def advance (count : Nat) (turn : Turn) : Turn := { turn with index := turn.index + count }

/-- Moves on by some items, and by one more if there is a token. -/
def moveOn (turn : Turn) (count : Nat) : Round :=
  match turn.items[turn.index + count]? with
  | none => .outside
  | some item => .next (turn.advance (if item.isToken then count + 1 else count))

/-- Replaces the items that a match covers, of which the first is the one at the index. What is left
of the last of them is looked at again. -/
def cut (make : Maker) (start stop : Nat) (turn : Turn) : Round :=
  match (lengths turn.left)[0]? with
  | none => .outside
  | some first =>
    match lastCovered? (lengths turn.left) stop 0 first with
    | none => .outside
    | some (last, covered) =>
      let text := (Tree.sources turn.left).take covered
      match make ((text.take stop).drop start) with
      | .error error => .failed error
      | .ok token =>
        let replacement := raw (text.take start) ++ token :: raw (text.drop stop)
        .next ⟨turn.items.take turn.index ++ replacement ++ turn.items.drop (turn.index + last + 1),
          turn.index + if stop < covered then replacement.length - 1 else replacement.length⟩

/-- A round of the loop. -/
def round (find : Finder) (make : Maker) (turn : Turn) : Round :=
  match turn.items[turn.index]? with
  | none => .done turn.items
  | some item =>
    if item.isToken then .next (turn.advance 1)
    else
      match find (Tree.sources turn.left) with
      | .error error => .failed error
      | .ok none => .done turn.items
      | .ok (some (start, stop)) =>
        if stop ≤ start then .next (turn.advance 1)
        else
          match indexAt? (lengths turn.left) start 0 0 with
          | none => .outside
          | some 0 => turn.cut make start stop
          | some (count + 1) => turn.moveOn (count + 1)

/-- The loop after some rounds, or where it ended before. -/
def run (find : Finder) (make : Maker) : (rounds : Nat) → Turn → Round
  | 0, turn => .next turn
  | rounds + 1, turn =>
    match turn.round find make with
    | .next turn => run find make rounds turn
    | ended => ended

end Turn

/-- The end of the loop with a result. -/
def Round.ofResult : Except SplitError (List Tree) → Round
  | .ok items => .done items
  | .error error => .failed error

/-! ## Places among the items -/

variable {find : Finder} {make : Maker} {items : List Tree} {start stop : Nat}

/-- The length of the item behind some items is at the index of their number. -/
theorem lengths_at (front : List Tree) (item : Tree) (items : List Tree) :
    (lengths (front ++ item :: items))[front.length]? = some item.source.length := by
  simp [lengths]

/-- One more item has the characters of the items before and its own. -/
theorem length_sources_concat (front : List Tree) (item : Tree) :
    (Tree.sources (front ++ [item])).length =
      (Tree.sources front).length + item.source.length := by
  simp [Tree.sources_append, Tree.sources]

/-- An index that is there is looked at. -/
theorem indexAt?_there {lengths : List Nat} {place passed index length : Nat}
    (there : lengths[index]? = some length) :
    indexAt? lengths place passed index =
      if passed + length ≤ place then indexAt? lengths place (passed + length) (index + 1)
      else some index := by
  rw [indexAt?]
  split
  · rename_i missing
    rw [missing] at there
    cases there
  · rename_i found
    rw [found] at there
    cases there
    rfl

/-- The item that covers a place is the one behind those that end at or before it. -/
theorem indexAt?_items (front : List Tree) (inside : start < (Tree.sources items).length) :
    indexAt? (lengths (front ++ items)) ((Tree.sources front).length + start)
      (Tree.sources front).length front.length =
        some (front.length + (spanBefore start items).1.length) := by
  induction items generalizing front start with
  | nil => cases inside
  | cons item items inductionHypothesis =>
    rw [Tree.sources, List.length_append] at inside
    rw [indexAt?_there (lengths_at front item items), spanBefore]
    by_cases before : item.source.length ≤ start
    · have further := inductionHypothesis (front ++ [item])
        (show start - item.source.length < (Tree.sources items).length by omega)
      have place : (Tree.sources front).length + item.source.length +
          (start - item.source.length) = (Tree.sources front).length + start := by omega
      rw [length_sources_concat, place, List.append_assoc, List.singleton_append,
        List.length_append, List.length_singleton] at further
      rw [if_pos (by omega), if_pos before, further]
      simp only [List.length_cons, Option.some.injEq]
      omega
    · rw [if_neg (by omega), if_neg before]
      rfl

/-- The item that covers a place, read from the first on. -/
theorem indexAt?_first (inside : start < (Tree.sources items).length) :
    indexAt? (lengths items) start 0 0 = some (spanBefore start items).1.length := by
  have located := indexAt?_items [] inside
  simpa only [List.nil_append, Tree.sources, List.length_nil, Nat.zero_add] using located

/-- The index behind one that is there is looked at as long as characters are missing. -/
theorem lastCovered?_there {lengths : List Nat} {index covered length : Nat}
    (there : lengths[index + 1]? = some length) (short : covered < stop) :
    lastCovered? lengths stop index covered =
      lastCovered? lengths stop (index + 1) (covered + length) := by
  rw [lastCovered?, if_pos short]
  split
  · rename_i missing
    rw [missing] at there
    cases there
  · rename_i found
    rw [found] at there
    cases there
    rfl

/-- Behind a match that stops in an item, what is left of the item stands in front of the others. -/
theorem dropSource_stop {front : List Tree} {item : Tree} (items : List Tree)
    (short : (Tree.sources front).length < stop)
    (enough : stop ≤ (Tree.sources front).length + item.source.length) :
    dropSource (stop - (Tree.sources front).length) (item :: items) =
      raw ((Tree.sources (front ++ [item])).drop stop) ++ items := by
  obtain ⟨missing, count⟩ : ∃ missing, stop - (Tree.sources front).length = missing + 1 :=
    ⟨stop - (Tree.sources front).length - 1, by omega⟩
  have left : (Tree.sources (front ++ [item])).drop stop = item.source.drop (missing + 1) := by
    rw [Tree.sources_append, List.drop_append, List.drop_eq_nil_of_le (by omega), count]
    simp [Tree.sources]
  rw [count, dropSource, left]
  by_cases whole : item.source.length ≤ missing + 1
  · have none : missing + 1 - item.source.length = 0 := by omega
    rw [if_pos whole, none, List.drop_eq_nil_of_le whole, dropSource]
    rfl
  · rw [if_neg whole, raw_of_filled (by simpa using whole)]
    rfl

/-- The items that a match covers end with the one in which the match stops. `front` are those that
are known to be covered, and `item` is the one that was added last. -/
theorem lastCovered?_items (front : List Tree) (item : Tree) (items : List Tree)
    (short : (Tree.sources front).length < stop)
    (inside : stop ≤ (Tree.sources (front ++ item :: items)).length) :
    ∃ covered rest, front ++ item :: items = covered ++ rest ∧ front.length < covered.length ∧
      stop ≤ (Tree.sources covered).length ∧
      lastCovered? (lengths (front ++ item :: items)) stop front.length
        ((Tree.sources front).length + item.source.length) =
          some (covered.length - 1, (Tree.sources covered).length) ∧
      dropSource (stop - (Tree.sources front).length) (item :: items) =
        raw ((Tree.sources covered).drop stop) ++ rest := by
  induction items generalizing front item with
  | nil =>
    rw [length_sources_concat] at inside
    refine ⟨front ++ [item], [], by simp, by simp, ?_, ?_, dropSource_stop [] short inside⟩
    · rwa [length_sources_concat]
    · rw [lastCovered?, if_neg (by omega), length_sources_concat]
      simp
  | cons next items inductionHypothesis =>
    by_cases enough : stop ≤ (Tree.sources front).length + item.source.length
    · refine ⟨front ++ [item], next :: items, by simp, by simp, ?_, ?_,
        dropSource_stop _ short enough⟩
      · rwa [length_sources_concat]
      · rw [lastCovered?, if_neg (by omega), length_sources_concat]
        simp
    · have width := length_sources_concat front item
      have split : front ++ item :: next :: items = front ++ [item] ++ next :: items := by simp
      obtain ⟨covered, rest, same, further, stops, found, left⟩ :=
        inductionHypothesis (front ++ [item]) next (by omega) (split ▸ inside)
      rw [List.length_append, List.length_singleton] at further found
      refine ⟨covered, rest, split.trans same, by omega, stops, ?_, ?_⟩
      · have there := lengths_at (front ++ [item]) next items
        rw [List.length_append, List.length_singleton] at there
        rw [split, lastCovered?_there there (by omega), ← found, width]
      · obtain ⟨missing, count⟩ : ∃ missing, stop - (Tree.sources front).length = missing + 1 :=
          ⟨stop - (Tree.sources front).length - 1, by omega⟩
        have behind : missing + 1 - item.source.length =
            stop - (Tree.sources (front ++ [item])).length := by omega
        rw [count, dropSource, if_pos (by omega), behind, left]

/-- The items that a match covers, read from the first on. -/
theorem lastCovered?_first (item : Tree) (items : List Tree) (positive : 0 < stop)
    (inside : stop ≤ (Tree.sources (item :: items)).length) :
    ∃ covered rest, item :: items = covered ++ rest ∧ 0 < covered.length ∧
      stop ≤ (Tree.sources covered).length ∧
      lastCovered? (lengths (item :: items)) stop 0 item.source.length =
        some (covered.length - 1, (Tree.sources covered).length) ∧
      dropSource stop (item :: items) = raw ((Tree.sources covered).drop stop) ++ rest := by
  have whole := lastCovered?_items [] item items positive inside
  simpa only [List.nil_append, Tree.sources, List.length_nil, Nat.zero_add, Nat.sub_zero] using whole

/-- The item that covers a place is there. -/
theorem spanBefore_inside (inside : start < (Tree.sources items).length) :
    ∃ first later, (spanBefore start items).2 = first :: later := by
  induction items generalizing start with
  | nil => cases inside
  | cons item items inductionHypothesis =>
    rw [Tree.sources, List.length_append] at inside
    rw [spanBefore]
    split
    · exact inductionHypothesis (by omega)
    · exact ⟨item, items, rfl⟩

/-! ## What a greedy rule does first -/

section

variable {item token : Tree} {later : List Tree}

/-- A token is passed. -/
theorem splitGreedy_token (isToken : item.isToken = true) :
    splitGreedy find make (item :: later) = ([item] ++ ·) <$> splitGreedy find make later := by
  rw [splitGreedy, if_pos isToken]
  exact bind_pure_comp _ _

variable (isRaw : ¬ item.isToken = true)
include isRaw

/-- A raw item is passed if a match without characters is found from there on. -/
theorem splitGreedy_pass
    (found : find (Tree.sources (item :: later)) = .ok (some (start, stop)))
    (empty : stop ≤ start) :
    splitGreedy find make (item :: later) = ([item] ++ ·) <$> splitGreedy find make later := by
  have unordered : ¬ start < stop := by omega
  rw [splitGreedy, if_neg isRaw]
  simp only [found, Outcome.bind_ok, if_neg unordered]
  exact bind_pure_comp _ _

/-- Where a search fails, the rule fails. -/
theorem splitGreedy_failed {error : SplitError}
    (failed : find (Tree.sources (item :: later)) = .error error) :
    splitGreedy find make (item :: later) = .error error := by
  rw [splitGreedy, if_neg isRaw]
  simp only [failed]
  rfl

/-- Where nothing is found, everything stays. -/
theorem splitGreedy_none (missed : find (Tree.sources (item :: later)) = .ok none) :
    splitGreedy find make (item :: later) = .ok (item :: later) := by
  rw [splitGreedy, if_neg isRaw]
  simp only [missed]
  rfl

/-- The items in front of a match are passed. -/
theorem splitGreedy_move
    (found : find (Tree.sources (item :: later)) = .ok (some (start, stop)))
    (ordered : start < stop) {passed behind : List Tree} {first : Tree}
    (spanned : spanBefore start (item :: later) = (first :: passed, behind)) :
    splitGreedy find make (item :: later) =
      (first :: passed ++ ·) <$> splitGreedy find make behind := by
  rw [splitGreedy, if_neg isRaw]
  simp only [found, Outcome.bind_ok, if_pos ordered]
  split
  · rename_i nothing
    rw [spanned] at nothing
    cases nothing
  · rename_i some
    rw [spanned] at some
    cases some
    exact bind_pure_comp _ _

/-- A match that starts in a raw item is made a token, and the rule goes on behind it. -/
theorem splitGreedy_cut
    (found : find (Tree.sources (item :: later)) = .ok (some (start, stop)))
    (ordered : start < stop) (here : (spanBefore start (item :: later)).1 = []) :
    splitGreedy find make (item :: later) =
      make (((Tree.sources (item :: later)).take stop).drop start) >>= fun token =>
        (raw ((Tree.sources (item :: later)).take start) ++ [token] ++ ·) <$>
          splitGreedy find make (dropSource stop (item :: later)) := by
  rw [splitGreedy, if_neg isRaw]
  simp only [found, Outcome.bind_ok, if_pos ordered]
  split
  · simp only [map_eq_pure_bind, List.append_assoc, List.singleton_append]
  · rename_i some
    rw [some] at here
    cases here

end

/-! ## What a round does -/

/-- A round ends the loop with what `splitGreedy` makes of the items that are left, or it puts some
items behind the index and leaves less. -/
inductive Follows (find : Finder) (make : Maker) (turn : Turn) : Round → Prop where
  | done (split : splitGreedy find make turn.left = .ok turn.left) :
      Follows find make turn (.done turn.items)
  | failed {error : SplitError} (split : splitGreedy find make turn.left = .error error) :
      Follows find make turn (.failed error)
  | next {later : Turn} {passed : List Tree} (behind : later.behind = turn.behind ++ passed)
      (less : Smaller later.left turn.left)
      (split : splitGreedy find make turn.left =
        (passed ++ ·) <$> splitGreedy find make later.left) :
      Follows find make turn (.next later)

namespace Turn

variable {turn : Turn} {item : Tree} {later : List Tree}

/-- The item at the index is the first of those that are left. -/
theorem left_of_there (there : turn.items[turn.index]? = some item) :
    ∃ later, turn.left = item :: later := by
  obtain ⟨inside, rfl⟩ := List.getElem?_eq_some_iff.mp there
  exact ⟨_, List.drop_eq_getElem_cons inside⟩

/-- Further on, less items are left. -/
theorem left_advance (count : Nat) (turn : Turn) :
    (turn.advance count).left = turn.left.drop count := by
  simp only [left, advance, List.drop_drop]

/-- The items that were left before are put behind the index. -/
theorem behind_advance (count : Nat) (turn : Turn) :
    (turn.advance count).behind = turn.behind ++ turn.left.take count := by
  simp only [behind, left, advance, List.take_add]

/-- The items by their places among those that are left. -/
theorem items_at (turn : Turn) (count : Nat) :
    turn.items[turn.index + count]? = turn.left[count]? := by
  simp only [left, List.getElem?_drop]

/-- The turn with some items behind the index and others left. -/
def between (behind left : List Tree) : Turn := ⟨behind ++ left, behind.length⟩

/-- These are the items that are left. -/
theorem left_between (behind left : List Tree) : (between behind left).left = left :=
  List.drop_left

/-- These are the items behind the index. -/
theorem behind_between (behind left : List Tree) : (between behind left).behind = behind :=
  List.take_left

/-- Where items are left, the index is the number of those behind it. -/
theorem length_behind (isLeft : turn.left = item :: later) : turn.behind.length = turn.index := by
  have count := congrArg List.length isLeft
  rw [left, List.length_drop, List.length_cons] at count
  rw [behind, List.length_take]
  omega

/-- Passing some items leaves less. -/
theorem follows_advance {passed rest : List Tree} (isLeft : turn.left = passed ++ rest)
    (some : passed ≠ [])
    (split : splitGreedy find make turn.left = (passed ++ ·) <$> splitGreedy find make rest) :
    Follows find make turn (.next (turn.advance passed.length)) := by
  have after : (turn.advance passed.length).left = rest := by
    rw [left_advance, isLeft, List.drop_left]
  have filled : 0 < passed.length := List.length_pos_iff.mpr some
  have behind : (turn.advance passed.length).behind = turn.behind ++ passed := by
    rw [behind_advance, isLeft, List.take_left]
  refine .next behind ?_ ?_
  · rw [after, isLeft]
    refine smaller_of_le ?_ ?_
    · rw [Tree.sources_append, List.length_append]
      omega
    · rw [List.length_append]
      omega
  · rw [after]
    exact split

/-- Behind the new token, the index is at what is left of the items that the match covers, or at the
items behind if nothing is left. -/
theorem replaced {front : List Tree} {token : Tree} {text : Text} (isLeft : turn.left = item :: later)
    (rest : List Tree) :
    (⟨turn.behind ++ (front ++ token :: raw (text.drop stop)) ++ rest, turn.index +
      if stop < text.length then (front ++ token :: raw (text.drop stop)).length - 1
      else (front ++ token :: raw (text.drop stop)).length⟩ : Turn) =
    between (turn.behind ++ (front ++ [token])) (raw (text.drop stop) ++ rest) := by
  have index := length_behind isLeft
  rw [between]
  by_cases further : stop < text.length
  · have filled : text.drop stop ≠ [] := by simpa using further
    rw [if_pos further, raw_of_filled filled]
    simp [index]
  · rw [if_neg further, List.drop_eq_nil_of_le (by omega)]
    simp [raw, index]

section

variable (isRaw : ¬ item.isToken = true) (isLeft : turn.left = item :: later)
  (found : find (Tree.sources (item :: later)) = .ok (some (start, stop)))
  (ordered : start < stop) (inside : stop ≤ (Tree.sources (item :: later)).length)
include isRaw isLeft found ordered inside

/-- The item in which the match starts is there to be moved on to; if it is a token, it is passed as
well. -/
theorem follows_moveOn {passed behind : List Tree} {first : Tree}
    (spanned : spanBefore start (item :: later) = (first :: passed, behind)) :
    Follows find make turn (turn.moveOn (passed.length + 1)) := by
  obtain ⟨reached, rest, covers⟩ :=
    spanBefore_inside (show start < (Tree.sources (item :: later)).length by omega)
  rw [spanned] at covers
  simp only at covers
  subst covers
  have whole : turn.left = first :: passed ++ reached :: rest := by
    rw [isLeft, ← spanBefore_append start (item :: later), spanned]
  have there : turn.items[turn.index + (passed.length + 1)]? = some reached := by
    rw [items_at, whole]
    simp
  have split : splitGreedy find make (item :: later) = _ :=
    splitGreedy_move isRaw found ordered spanned
  rw [← isLeft] at split
  rw [moveOn, there]
  simp only
  by_cases isToken : reached.isToken = true
  · have count : passed.length + 1 + 1 = (first :: passed ++ [reached]).length := by simp
    have whole' : turn.left = (first :: passed ++ [reached]) ++ rest := by simp [whole]
    rw [if_pos isToken, count]
    refine follows_advance whole' (by simp) ?_
    rw [split, splitGreedy_token isToken, Functor.map_map]
    simp only [List.append_assoc]
  · rw [if_neg isToken]
    exact follows_advance whole (List.cons_ne_nil first passed) split

/-- Cutting a match out of the items leaves what stands behind it. All lengths are read where they
are, since the match stops inside the text. -/
theorem follows_cut (here : (spanBefore start (item :: later)).1 = []) :
    Follows find make turn (turn.cut make start stop) := by
  obtain ⟨covered, rest, whole, some, stops, last, left⟩ :=
    lastCovered?_first item later (by omega) inside
  have first : (lengths (item :: later))[0]? = Option.some item.source.length :=
    lengths_at [] item later
  have split : splitGreedy find make (item :: later) = _ :=
    splitGreedy_cut isRaw found ordered here
  have text : (Tree.sources (item :: later)).take (Tree.sources covered).length =
      Tree.sources covered := by
    rw [whole, Tree.sources_append, List.take_left]
  have part : ((Tree.sources (item :: later)).take stop).drop start =
      ((Tree.sources covered).take stop).drop start := by
    rw [whole, Tree.sources_append, List.take_append_of_le_length stops]
  have front : (Tree.sources (item :: later)).take start = (Tree.sources covered).take start := by
    rw [whole, Tree.sources_append, List.take_append_of_le_length (by omega)]
  rw [part, front, ← isLeft] at split
  rw [cut, isLeft, first]
  simp only [last, text]
  cases made : make (((Tree.sources covered).take stop).drop start) with
  | error error =>
    rw [made] at split
    exact .failed split
  | ok token =>
    rw [made, Outcome.bind_ok] at split
    have others : turn.items.drop (turn.index + (covered.length - 1) + 1) = rest := by
      have count : turn.index + (covered.length - 1) + 1 = turn.index + covered.length := by omega
      rw [count, ← List.drop_drop]
      have whole : turn.items.drop turn.index = covered ++ rest := isLeft.trans whole
      rw [whole, List.drop_left]
    simp only [others]
    rw [show turn.items.take turn.index = turn.behind from rfl, replaced isLeft rest, ← left]
    refine .next (behind_between _ _) ?_ ?_
    · rw [left_between, isLeft]
      exact smaller_dropSource item later (by omega)
    · rw [left_between, split, isLeft]

end

/-- Whatever turn it is, a round reads no list outside, and does what `splitGreedy` does first. -/
theorem round_follows (stays : StaysInside find) (make : Maker) (turn : Turn) :
    Follows find make turn (turn.round find make) := by
  rw [round]
  cases there : turn.items[turn.index]? with
  | none =>
    have none : turn.left = [] := List.drop_eq_nil_of_le (List.getElem?_eq_none_iff.mp there)
    exact .done (by rw [none, splitGreedy])
  | some item =>
    obtain ⟨later, isLeft⟩ := left_of_there there
    have isFirst : turn.left = [item] ++ later := isLeft
    simp only
    by_cases isToken : item.isToken = true
    · rw [if_pos isToken]
      exact follows_advance isFirst (by simp) (isLeft ▸ splitGreedy_token isToken)
    · rw [if_neg isToken]
      cases found : find (Tree.sources turn.left) with
      | error error => exact .failed (isLeft ▸ splitGreedy_failed isToken (isLeft ▸ found))
      | ok bounds? =>
        cases bounds? with
        | none => exact .done (isLeft ▸ splitGreedy_none isToken (isLeft ▸ found))
        | some bounds =>
          obtain ⟨start, stop⟩ := bounds
          have inside := stays _ _ _ found
          rw [isLeft] at found inside
          simp only
          by_cases empty : stop ≤ start
          · rw [if_pos empty]
            exact follows_advance isFirst (by simp)
              (isLeft ▸ splitGreedy_pass isToken found empty)
          · have ordered : start < stop := by omega
            rw [if_neg empty, isLeft, indexAt?_first (by omega)]
            cases spanned : spanBefore start (item :: later) with
            | mk passed behind =>
              cases passed with
              | nil => exact follows_cut isToken isLeft found ordered inside (by rw [spanned])
              | cons first passed => exact follows_moveOn isToken isLeft found ordered inside spanned

/-- The loop ends with what `splitGreedy` makes of the items that are left, put behind the items
that were passed. The induction is on what is left: every round that goes on leaves less. -/
theorem run_ends (stays : StaysInside find) (make : Maker) (turn : Turn) :
    ∃ rounds, run find make rounds turn =
      .ofResult ((turn.behind ++ ·) <$> splitGreedy find make turn.left) := by
  have follows := round_follows stays make turn
  generalize happened : turn.round find make = round at follows
  cases follows with
  | done split =>
    refine ⟨1, ?_⟩
    rw [run, happened, split]
    exact congrArg Round.done (List.take_append_drop turn.index turn.items).symm
  | failed split =>
    refine ⟨1, ?_⟩
    rw [run, happened, split]
    rfl
  | @next later passed behind less split =>
    obtain ⟨rounds, ended⟩ := run_ends stays make later
    refine ⟨rounds + 1, ?_⟩
    rw [run, happened]
    simp only
    rw [ended, split, behind, Functor.map_map]
    simp only [List.append_assoc]
termination_by size turn.left
decreasing_by exact less

end Turn

/-! ## Failures -/

/-- A greedy rule fails only where a search or the making of a token does. -/
theorem cause_of_splitGreedy {error : SplitError}
    (failed : splitGreedy find make items = .error error) :
    (∃ text, find text = .error error) ∨ ∃ part, make part = .error error := by
  induction items using splitGreedy.induct with
  | case1 =>
    rw [splitGreedy] at failed
    cases failed
  | case2 item later isToken inductionHypothesis =>
    rw [splitGreedy_token isToken, Outcome.map_eq_error] at failed
    exact inductionHypothesis failed
  | case3 item later isRaw cutHypothesis moveHypothesis passHypothesis =>
    cases found : find (Tree.sources (item :: later)) with
    | error cause =>
      rw [splitGreedy_failed isRaw found] at failed
      cases failed
      exact .inl ⟨_, found⟩
    | ok bounds? =>
      cases bounds? with
      | none =>
        rw [splitGreedy_none isRaw found] at failed
        cases failed
      | some bounds =>
        obtain ⟨start, stop⟩ := bounds
        by_cases ordered : start < stop
        · cases spanned : spanBefore start (item :: later) with
          | mk passed behind =>
            cases passed with
            | nil =>
              rw [splitGreedy_cut isRaw found ordered (by rw [spanned]), Outcome.bind_eq_error]
                at failed
              rcases failed with made | ⟨token, made, failed⟩
              · exact .inr ⟨_, made⟩
              · exact cutHypothesis start stop ordered (Outcome.map_eq_error.mp failed)
            | cons first passed =>
              rw [splitGreedy_move isRaw found ordered spanned, Outcome.map_eq_error] at failed
              exact moveHypothesis start first passed behind spanned failed
        · rw [splitGreedy_pass isRaw found (by omega), Outcome.map_eq_error] at failed
          exact passHypothesis failed

/-- A token can be made in finite time if the text inside of it can be split in finite time. -/
theorem makeWith_ne_endless {splitInside : RuleSet → Text → Except SplitError (List Tree)}
    {root : RuleSet} {name : String} {rule : Rule} {part : Text}
    (inside : Leads root (fun set text => splitInside set text ≠ .error .endless) part rule.inside) :
    makeWith splitInside root name rule part ≠ .error .endless := by
  intro failed
  unfold makeWith at failed
  cases linked : rule.inside with
  | none =>
    simp only [linked, Outcome.bind_ok] at failed
    split at failed <;> cases failed
  | root =>
    rw [linked] at inside
    simp only [linked, Outcome.bind_eq_error, Outcome.map_eq_error] at failed
    rcases failed with endless | ⟨content, -, failed⟩
    · exact inside endless
    · split at failed <;> cases failed
  | «to» set =>
    rw [linked] at inside
    simp only [linked, Outcome.bind_eq_error, Outcome.map_eq_error] at failed
    rcases failed with endless | ⟨content, -, failed⟩
    · exact inside endless
    · split at failed <;> cases failed

/-- A search is never endless. -/
theorem findWith_ne_endless (rule : Rule) (text : Text) :
    findWith rule text ≠ .error .endless := by
  intro failed
  rw [findWith] at failed
  split at failed <;> cases failed

/-- A greedy rule ends. For every rule whose pattern keeps to the text and whose inside can be split
in finite time, and for all items: no round of the loop reads a list outside; every round that goes
on leaves less text, or as much text in fewer items; and after some rounds the loop has ended with
what the rule returns, which is no endless splitting.

Proof: a match stops inside the text of the items that are left. So adding up their lengths finds
the item in which it starts, and the one in which it stops; and what is left behind a round is a
part of the items that were left, or these without the characters up to the stop of the match. -/
theorem greedy_loop_ends {rule : Rule} (greedy : rule.greedy = true)
    (keeps : rule.pattern.KeepsToText)
    {splitInside : RuleSet → Text → Except SplitError (List Tree)} {root : RuleSet}
    (inside : ∀ part, Leads root (fun set text => splitInside set text ≠ .error .endless) part
      rule.inside)
    (name : String) (items : List Tree) :
    (∀ turn : Turn,
      turn.round (findWith rule) (makeWith splitInside root name rule) ≠ .outside ∧
      ∀ later, turn.round (findWith rule) (makeWith splitInside root name rule) = .next later →
        Smaller later.left turn.left) ∧
    (∃ rounds, Turn.run (findWith rule) (makeWith splitInside root name rule) rounds ⟨items, 0⟩ =
      .ofResult (applyRule rule (makeWith splitInside root name rule) items)) ∧
    applyRule rule (makeWith splitInside root name rule) items ≠ .error .endless := by
  have stays := findWith_stays keeps
  rw [applyRule, if_pos greedy]
  refine ⟨fun turn => ?_, ?_, fun failed => ?_⟩
  · have follows := turn.round_follows stays (makeWith splitInside root name rule)
    generalize turn.round (findWith rule) (makeWith splitInside root name rule) = round at follows
    cases follows with
    | done | failed => exact ⟨by rintro ⟨⟩, by rintro later ⟨⟩⟩
    | next behind less split =>
      refine ⟨by rintro ⟨⟩, fun later same => ?_⟩
      cases same
      exact less
  · obtain ⟨rounds, ended⟩ := Turn.run_ends stays (makeWith splitInside root name rule) ⟨items, 0⟩
    refine ⟨rounds, ended.trans (congrArg Round.ofResult ?_)⟩
    exact id_map (splitGreedy (findWith rule) (makeWith splitInside root name rule) items)
  · rcases cause_of_splitGreedy failed with ⟨text, endless⟩ | ⟨part, endless⟩
    · exact findWith_ne_endless rule text endless
    · exact makeWith_ne_endless (inside part) endless

/-- A rule that finds three characters and leaves the first of them out. -/
def behindFirst : Rule :=
  { pattern := .custom fun text =>
      if 3 ≤ text.length then some ⟨0, 3, some (some (text.take 1))⟩ else none
    lookbehind := true
    greedy := true }

/-- What the rule finds lies inside the text. -/
theorem behindFirst_keeps : behindFirst.pattern.KeepsToText := by
  intro text found searched
  simp only at searched
  split at searched
  · cases searched
    assumption
  · cases searched

/-- The items after the first round. There is one more than before. -/
def firstCut : List Tree :=
  [.text ['a'], .token .string (.text ['b', 'c']) [] (some ['b', 'c']), .text ['d', 'e'],
    .text ['f']]

/-- The first round cuts the token and adds an item; the loop ends all the same. -/
theorem greedy_loop_ends_growing :
    behindFirst.greedy = true ∧ behindFirst.pattern.KeepsToText ∧
      (∀ part, Leads (.empty "none")
        (fun set text => splitWith (.empty "none") 0 set text ≠ .error .endless) part
          behindFirst.inside) ∧
      Turn.round (findWith behindFirst) (makeWith (splitWith (.empty "none") 0) (.empty "none")
        "string" behindFirst) ⟨tokenInside, 0⟩ = .next ⟨firstCut, 2⟩ ∧
      Smaller (Turn.left ⟨firstCut, 2⟩) (Turn.left ⟨tokenInside, 0⟩) ∧
      ∃ rounds, Turn.run (findWith behindFirst) (makeWith (splitWith (.empty "none") 0)
        (.empty "none") "string" behindFirst) rounds ⟨tokenInside, 0⟩ = .done tokenCut := by
  have round : Turn.round (findWith behindFirst) (makeWith (splitWith (.empty "none") 0)
      (.empty "none") "string" behindFirst) ⟨tokenInside, 0⟩ = .next ⟨firstCut, 2⟩ := by
    cbv
  have applied : applyRule behindFirst (makeWith (splitWith (.empty "none") 0) (.empty "none")
      "string" behindFirst) tokenInside = .ok tokenCut := by
    cbv
  have inside : ∀ part, Leads (.empty "none")
      (fun set text => splitWith (.empty "none") 0 set text ≠ .error .endless) part
        behindFirst.inside := fun _ => trivial
  have isGreedy : behindFirst.greedy = true := rfl
  obtain ⟨each, ends, -⟩ := greedy_loop_ends isGreedy behindFirst_keeps inside "string" tokenInside
  rw [applied] at ends
  exact ⟨isGreedy, behindFirst_keeps, inside, round, (each _).2 _ round, ends⟩

end TemplHighlight.Split
