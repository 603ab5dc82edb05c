import TemplHighlight.Proofs.Outcome
import TemplHighlight.Proofs.Pairs
import TemplHighlight.Toml.Parser

/-!
# Distinct names in TOML documents

No table of a document that was read has a name twice: a name is put into a table only if it is not
there, and otherwise values are changed in their places. So what stands under a name is all that the
document says of it.
-/

namespace TemplHighlight.Toml

namespace Value

/-- Every table that a value is made of has distinct names. -/
inductive Distinct : Value → Prop where
  | ofPlain {value : Value} (plain : isContainer value = false) : Distinct value
  | ofArray {items : List Value} (each : ∀ item ∈ items, Distinct item) : Distinct (array items)
  | ofTable {entries : Pairs Value} (names : (Pairs.names entries).Nodup)
      (each : ∀ entry ∈ entries, Distinct entry.2) : Distinct (table entries)

variable {name : String} {value below : Value} {entries after : Pairs Value} {items : List Value}

/-- The items of an array of distinct names have distinct names. -/
theorem Distinct.item (distinct : (array items).Distinct) : ∀ item ∈ items, item.Distinct := by
  cases distinct with
  | ofPlain plain => cases plain
  | ofArray each => exact each

/-- A table of distinct names has distinct names itself. -/
theorem Distinct.names (distinct : (table entries).Distinct) : (Pairs.names entries).Nodup := by
  cases distinct with
  | ofPlain plain => cases plain
  | ofTable names each => exact names

/-- The values of a table of distinct names have distinct names. -/
theorem Distinct.entry (distinct : (table entries).Distinct) :
    ∀ entry ∈ entries, entry.2.Distinct := by
  cases distinct with
  | ofPlain plain => cases plain
  | ofTable names each => exact each

/-- What is found in a table of distinct names has distinct names. -/
theorem Distinct.found (distinct : (table entries).Distinct)
    (found : Pairs.get? name entries = some value) : value.Distinct :=
  distinct.entry _ (Pairs.mem_of_get? found)

/-- The table without entries. -/
theorem distinct_empty : (table []).Distinct := .ofTable List.nodup_nil nofun

/-! ## Changing tables -/

/-- A value is put under a name. -/
theorem Distinct.put (distinct : (table entries).Distinct) (name : String)
    (value : below.Distinct) : (table (Pairs.put name below entries)).Distinct := by
  refine .ofTable (Pairs.nodup_names_put distinct.names) fun entry member => ?_
  rcases Pairs.mem_put member with rfl | old
  · exact value
  · exact distinct.entry entry old

/-- A value is put under a name that is not taken. -/
theorem Distinct.putNew (distinct : (table entries).Distinct) (ofValue : value.Distinct)
    (put : putNew? name value entries = some after) : (table after).Distinct := by
  rw [putNew?] at put
  split at put
  next => cases put
  next =>
    cases put
    exact distinct.put name ofValue

/-- A table is added to an array of tables. -/
theorem Distinct.addTable (distinct : (table entries).Distinct)
    (added : addTable? name entries = some after) : (table after).Distinct := by
  rw [addTable?] at added
  split at added
  next =>
    cases added
    refine distinct.put name (.ofArray fun item member => ?_)
    exact List.mem_singleton.mp member ▸ distinct_empty
  next items found =>
    cases added
    refine distinct.put name (.ofArray fun item member => ?_)
    rcases List.mem_append.mp member with old | last
    · exact (distinct.found found).item item old
    · exact List.mem_singleton.mp last ▸ distinct_empty
  next => cases added

/-- A table somewhere below is changed, by a change that leaves distinct names distinct. -/
theorem Distinct.changeAt {change : Pairs Value → Option (Pairs Value)} {throughArrays : Bool}
    {key : Key} (keeps : ∀ before after, (table before).Distinct → change before = some after →
      (table after).Distinct)
    (distinct : (table entries).Distinct)
    (changed : changeAt? throughArrays change key entries = some after) :
    (table after).Distinct := by
  induction key generalizing entries after with
  | nil => exact keeps entries after distinct changed
  | cons name key inductionHypothesis =>
    have put {below : Value} (ofBelow : below.Distinct)
        (put : pure (Pairs.put name below entries) = some after) : (table after).Distinct := by
      cases put
      exact distinct.put name ofBelow
    rw [changeAt?] at changed
    split at changed
    next =>
      obtain ⟨below, made, changed⟩ := Option.bind_eq_some_iff.mp changed
      obtain ⟨inner, done, rfl⟩ := Option.map_eq_some_iff.mp made
      exact put (inductionHypothesis distinct_empty done) changed
    next inner found =>
      obtain ⟨below, made, changed⟩ := Option.bind_eq_some_iff.mp changed
      obtain ⟨inner, done, rfl⟩ := Option.map_eq_some_iff.mp made
      exact put (inductionHypothesis (distinct.found found) done) changed
    next items found =>
      have ofItems := (distinct.found found).item
      split at changed
      next =>
        split at changed
        next inner isLast =>
          obtain ⟨last, done, changed⟩ := Option.bind_eq_some_iff.mp changed
          have ofInner := ofItems _ (List.mem_of_getLast? isLast)
          refine put (.ofArray fun item member => ?_) changed
          rcases List.mem_append.mp member with old | last
          · exact ofItems item (List.dropLast_subset items old)
          · exact List.mem_singleton.mp last ▸ inductionHypothesis ofInner done
        next => cases changed
      next => cases changed
    next => cases changed

end Value

/-! ## Reading values -/

variable {text rest : Text} {found : Value}

/-- A date is no container. -/
theorem plain_dateOrTime (read : dateOrTime? text = some (.ok (found, rest))) :
    isContainer found = false := by
  rw [dateOrTime?] at read
  obtain ⟨⟨high, _⟩, -, read⟩ := Option.bind_eq_some_iff.mp read
  obtain ⟨⟨low, _⟩, -, read⟩ := Option.bind_eq_some_iff.mp read
  obtain ⟨behindYear, -, read⟩ := Option.bind_eq_some_iff.mp read
  obtain ⟨⟨month, _⟩, -, read⟩ := Option.bind_eq_some_iff.mp read
  obtain ⟨behindMonth, -, read⟩ := Option.bind_eq_some_iff.mp read
  obtain ⟨⟨day, behindDay⟩, -, read⟩ := Option.bind_eq_some_iff.mp read
  dsimp only at read
  split at read
  next => cases read
  next =>
    split at read <;>
    · cases read
      rfl

/-- A number in another base is no container. -/
theorem plain_based (read : basedNumber? text = some (found, rest)) :
    isContainer found = false := by
  unfold basedNumber? at read
  split at read
  next =>
    dsimp only at read
    split at read
    next =>
      obtain ⟨⟨digits, behind⟩, -, same⟩ := Option.map_eq_some_iff.mp read
      cases same
      rfl
    next => cases read
  next => cases read

/-- A number in base ten is no container. -/
theorem plain_decimal (read : decimalNumber? text = some (.ok (found, rest))) :
    isContainer found = false := by
  rw [decimalNumber?] at read
  rcases sign text with ⟨negative, unsigned⟩
  dsimp only at read
  split at read <;>
  · obtain ⟨⟨digits, behind⟩, -, read⟩ := Option.bind_eq_some_iff.mp read
    dsimp only at read
    split at read
    next =>
      cases read
      rfl
    next =>
      split at read
      next => cases read
      next =>
        cases read
        rfl

/-- Numbers, dates and times are no containers. -/
theorem plain_number (read : number text = .ok (found, rest)) : isContainer found = false := by
  unfold number at read
  split at read
  next date isDate => exact plain_dateOrTime (read ▸ isDate)
  next =>
    split at read
    next =>
      cases read
      rfl
    next =>
      split at read
      next based isBased =>
        cases read
        exact plain_based isBased
      next =>
        split at read
        next decimal isDecimal => exact plain_decimal (read ▸ isDecimal)
        next =>
          dsimp only at read
          split at read
          next =>
            cases read
            rfl
          next => cases read

/-- What is read with a bound on nesting and length has distinct names. -/
structure ReadsDistinct (fuel : Nat) : Prop where
  ofValue : ∀ text found rest, value fuel text = .ok (found, rest) → found.Distinct
  ofItems : ∀ text found rest, items fuel text = .ok (found, rest) → ∀ item ∈ found, item.Distinct
  ofKeyValue : ∀ text key found rest, keyValue fuel text = .ok ((key, found), rest) →
    found.Distinct
  ofEntries : ∀ marks entries text found rest,
    inlineEntries fuel marks entries text = .ok (found, rest) → (Value.table entries).Distinct →
      (Value.table found).Distinct

/-- A value is read. -/
theorem ReadsDistinct.value_succ {fuel : Nat} (reads : ReadsDistinct fuel)
    (read : value (fuel + 1) text = .ok (found, rest)) : found.Distinct := by
  unfold value at read
  split at read
  next =>
    obtain ⟨⟨string, behind⟩, -, same⟩ := Outcome.map_eq_ok.mp read
    cases same
    exact .ofPlain rfl
  next =>
    obtain ⟨⟨string, behind⟩, -, same⟩ := Outcome.map_eq_ok.mp read
    cases same
    exact .ofPlain rfl
  next =>
    cases read
    exact .ofPlain rfl
  next =>
    cases read
    exact .ofPlain rfl
  next =>
    obtain ⟨start, -, read⟩ := Outcome.bind_eq_ok.mp read
    obtain ⟨⟨items, behind⟩, all, same⟩ := Outcome.bind_eq_ok.mp read
    cases same
    exact .ofArray (reads.ofItems _ _ _ all)
  next =>
    split at read
    next =>
      cases read
      exact Value.distinct_empty
    next =>
      obtain ⟨⟨entries, behind⟩, all, same⟩ := Outcome.map_eq_ok.mp read
      cases same
      exact reads.ofEntries _ _ _ _ _ all Value.distinct_empty
  next => exact .ofPlain (plain_number read)

/-- The items of an array are read. -/
theorem ReadsDistinct.items_succ {fuel : Nat} (reads : ReadsDistinct fuel) {found : List Value}
    (read : items (fuel + 1) text = .ok (found, rest)) : ∀ item ∈ found, item.Distinct := by
  unfold items at read
  split at read
  next =>
    cases read
    exact nofun
  next =>
    obtain ⟨⟨item, behind⟩, first, read⟩ := Outcome.bind_eq_ok.mp read
    have ofFirst := reads.ofValue _ _ _ first
    obtain ⟨behind, -, read⟩ := Outcome.bind_eq_ok.mp read
    split at read
    next =>
      cases read
      exact fun item member => List.mem_singleton.mp member ▸ ofFirst
    next =>
      obtain ⟨start, -, read⟩ := Outcome.bind_eq_ok.mp read
      obtain ⟨⟨more, behind⟩, later, same⟩ := Outcome.bind_eq_ok.mp read
      cases same
      exact List.forall_mem_cons.mpr ⟨ofFirst, reads.ofItems _ _ _ later⟩
    next => cases read

/-- A key and its value are read. -/
theorem ReadsDistinct.keyValue_succ {fuel : Nat} (reads : ReadsDistinct fuel) {key : Key}
    (read : keyValue (fuel + 1) text = .ok ((key, found), rest)) :
    found.Distinct := by
  rw [keyValue] at read
  obtain ⟨⟨key, behind⟩, -, read⟩ := Outcome.bind_eq_ok.mp read
  obtain ⟨behind, -, read⟩ := Outcome.bind_eq_ok.mp read
  obtain ⟨⟨value, behind⟩, ofKey, same⟩ := Outcome.bind_eq_ok.mp read
  cases same
  exact reads.ofValue _ _ _ ofKey

/-- The entries of a table are read and put into it. -/
theorem ReadsDistinct.inlineEntries_succ {fuel : Nat} (reads : ReadsDistinct fuel) {marks : Marks}
    {entries found : Pairs Value} (distinct : (Value.table entries).Distinct)
    (read : inlineEntries (fuel + 1) marks entries text = .ok (found, rest)) :
    (Value.table found).Distinct := by
  rw [inlineEntries] at read
  obtain ⟨⟨⟨key, value⟩, behind⟩, first, read⟩ := Outcome.bind_eq_ok.mp read
  have ofFirst := reads.ofKeyValue _ _ _ _ first
  dsimp only at read
  split at read
  next => cases read
  next =>
    split at read
    next => cases read
    next more changed =>
      have ofMore : (Value.table more).Distinct :=
        distinct.changeAt (fun _ _ before put => before.putNew ofFirst put) changed
      split at read
      next =>
        cases read
        exact ofMore
      next => exact reads.ofEntries _ _ _ _ _ read ofMore
      next => cases read

/-- Whatever the bound is, what is read has distinct names. -/
theorem readsDistinct (fuel : Nat) : ReadsDistinct fuel := by
  induction fuel with
  | zero => constructor <;> exact nofun
  | succ fuel reads => exact {
      ofValue := fun _ _ _ => reads.value_succ
      ofItems := fun _ _ _ => reads.items_succ
      ofKeyValue := fun _ _ _ _ => reads.keyValue_succ
      ofEntries := fun _ _ _ _ _ read distinct => reads.inlineEntries_succ distinct read }

/-! ## Reading documents -/

namespace Document

/-- Every table of a document has distinct names. -/
def Distinct (document : Document) : Prop := (Value.table document.entries).Distinct

variable {document after : Document} {key : Key}

/-- A value is put into the current table. -/
theorem Distinct.put (distinct : document.Distinct) {value : Value} (ofValue : value.Distinct)
    (put : document.put? key value = some after) : after.Distinct := by
  rw [put?] at put
  dsimp only at put
  split at put
  next => cases put
  next =>
    split at put
    next => cases put
    next =>
      obtain ⟨entries, changed, same⟩ := Option.bind_eq_some_iff.mp put
      cases same
      exact Value.Distinct.changeAt (fun _ _ before new => before.putNew ofValue new) distinct
        changed

/-- A table is opened. -/
theorem Distinct.opened (distinct : document.Distinct) (opened : document.open? key = some after) :
    after.Distinct := by
  rw [open?] at opened
  split at opened
  next => cases opened
  next =>
    obtain ⟨entries, changed, same⟩ := Option.bind_eq_some_iff.mp opened
    cases same
    refine Value.Distinct.changeAt (fun before after ofBefore same => ?_) distinct changed
    cases same
    exact ofBefore

/-- A table is opened at the end of an array. -/
theorem Distinct.append (distinct : document.Distinct)
    (appended : document.append? key = some after) : after.Distinct := by
  rw [append?] at appended
  split at appended
  next => cases appended
  next =>
    obtain ⟨entries, changed, same⟩ := Option.bind_eq_some_iff.mp appended
    cases same
    exact Value.Distinct.changeAt (fun _ _ before added => before.addTable added) distinct changed

/-- A header is read. -/
theorem Distinct.header (distinct : document.Distinct)
    (read : Toml.header document text = .ok (after, rest)) : after.Distinct := by
  have finished : document.finishPending.Distinct := distinct
  unfold Toml.header at read
  dsimp only at read
  split at read
  next =>
    obtain ⟨⟨key, behind⟩, -, read⟩ := Outcome.bind_eq_ok.mp read
    obtain ⟨behind, -, read⟩ := Outcome.bind_eq_ok.mp read
    dsimp only at read
    split at read
    next appended =>
      cases read
      exact finished.append appended
    next => cases read
  next =>
    obtain ⟨behind, -, read⟩ := Outcome.bind_eq_ok.mp read
    obtain ⟨⟨key, behind⟩, -, read⟩ := Outcome.bind_eq_ok.mp read
    obtain ⟨behind, -, read⟩ := Outcome.bind_eq_ok.mp read
    dsimp only at read
    split at read
    next opened =>
      cases read
      exact finished.opened opened
    next => cases read

/-- A statement is read. -/
theorem Distinct.statement (distinct : document.Distinct)
    (read : Toml.statement document text = .ok (after, rest)) : after.Distinct := by
  unfold Toml.statement at read
  split at read
  next =>
    cases read
    exact distinct
  next =>
    split at read
    next =>
      cases read
      exact distinct
    next =>
      split at read
      next => exact distinct.header read
      next =>
        split at read
        next =>
          obtain ⟨⟨⟨key, value⟩, behind⟩, ofKey, read⟩ := Outcome.bind_eq_ok.mp read
          dsimp only at read
          split at read
          next put =>
            cases read
            exact distinct.put ((readsDistinct _).ofKeyValue _ _ _ _ ofKey) put
          next => cases read
        next => cases read

/-- Line after line is read. -/
theorem Distinct.lines {fuel : Nat} (distinct : document.Distinct)
    (read : Toml.lines fuel document text = .ok after) : after.Distinct := by
  induction fuel generalizing document text with
  | zero => cases read
  | succ fuel inductionHypothesis =>
    rw [Toml.lines] at read
    obtain ⟨⟨next, behind⟩, ofLine, read⟩ := Outcome.bind_eq_ok.mp read
    have ofNext := distinct.statement ofLine
    obtain ⟨behind, -, read⟩ := Outcome.bind_eq_ok.mp read
    split at read
    next =>
      cases read
      exact ofNext
    next => exact inductionHypothesis ofNext read
    next => cases read

end Document

/-- Every table of a document that was read has distinct names, and so has the document. -/
theorem parse_distinct {entries : Pairs Value} (read : parse text = .ok entries) :
    (Value.table entries).Distinct := by
  obtain ⟨document, ofLines, rfl⟩ := Outcome.map_eq_ok.mp read
  have empty : Document.Distinct ⟨[], [], [], []⟩ := Value.distinct_empty
  exact empty.lines ofLines

end TemplHighlight.Toml
