import TemplHighlight.Markup.Tag

/-!
# How the character classes lie to each other

The scanners of a tag never go back, so they are right only because the characters at which one
part of a tag ends cannot belong to that part. The facts are stated for all of Unicode: blanks are
few enough to be listed, and each of them is looked up in the table of word characters.
-/

namespace TemplHighlight.CharClass

/-- The code points of the blanks. -/
def blankCodes : List Nat :=
  [0x09, 0x0a, 0x0b, 0x0c, 0x0d, 0x1c, 0x1d, 0x1e, 0x1f, 0x20, 0x85, 0xa0, 0x1680, 0x2000, 0x2001,
    0x2002, 0x2003, 0x2004, 0x2005, 0x2006, 0x2007, 0x2008, 0x2009, 0x200a, 0x2028, 0x2029, 0x202f,
    0x205f, 0x3000]

/-- A number that a table lists lies in one of its ranges. -/
theorem range_of_inRanges {n : Nat} {ranges : List (Nat × Nat)}
    (listed : CharTable.inRanges n ranges) : ∃ range ∈ ranges, range.1 ≤ n ∧ n ≤ range.2 := by
  fun_induction CharTable.inRanges n ranges with
  | case1 => cases listed
  | case2 => cases listed
  | case3 first last rest notBelow inductionHypothesis =>
    rcases Bool.or_eq_true_iff.mp listed with here | later
    · exact ⟨(first, last), List.mem_cons_self, by omega, of_decide_eq_true here⟩
    · obtain ⟨range, member, bounds⟩ := inductionHypothesis later
      exact ⟨range, List.mem_cons_of_mem _ member, bounds⟩

/-- A blank has one of the code points listed. -/
theorem blank_code {c : Char} (blank : isBlank c) : c.toNat ∈ blankCodes := by
  obtain ⟨range, member, low, high⟩ := range_of_inRanges blank
  simp only [List.mem_cons, List.not_mem_nil, or_false] at member
  simp only [blankCodes, List.mem_cons, List.not_mem_nil, or_false]
  rcases member with rfl | rfl | rfl | rfl | rfl | rfl | rfl | rfl | rfl | rfl <;>
    simp only at low high <;> omega

/-- A property that holds at each of the code points listed holds of every blank. -/
theorem blank_cases (property : Char → Bool)
    (holds : ∀ code ∈ blankCodes, property (Char.ofNat code)) {c : Char} (blank : isBlank c) :
    property c := by
  have listed : property (Char.ofNat c.toNat) := holds c.toNat (blank_code blank)
  rwa [Char.ofNat_toNat] at listed

/-- A case run that holds a number is one of the list, and the number lies behind its start. -/
theorem run_of_caseRun {n : Nat} {runs : List CharTable.CaseRun} {run : CharTable.CaseRun}
    (found : CharTable.caseRun? n runs = some run) : run ∈ runs ∧ run.first ≤ n := by
  fun_induction CharTable.caseRun? n runs with
  | case1 => cases found
  | case2 => cases found
  | case3 other rest notBelow holds =>
    cases found
    exact ⟨List.mem_cons_self, Nat.le_of_not_lt notBelow⟩
  | case4 other rest notBelow holdsNot inductionHypothesis =>
    obtain ⟨member, bound⟩ := inductionHypothesis found
    exact ⟨List.mem_cons_of_mem other member, bound⟩

/-- The character with a code point is another one than the first only if it has that code point. -/
theorem code_of_ofNat {n : Nat} {c : Char} (same : Char.ofNat n = c) (some : c ≠ Char.ofNat 0) :
    c.toNat = n := by
  by_cases valid : n.isValidChar
  · rw [← same, Char.ofNat, dif_pos valid]
    rfl
  · rw [Char.ofNat, dif_neg valid] at same
    exact absurd same.symm some

/-- No character differs from one in front of the letters in case only: all characters that stand for
others are letters, and lie behind it. -/
theorem mark_of_sameLetter {mark c : Char} (notLetter : 0 < mark.toNat ∧ mark.toNat < 65)
    (same : sameLetter mark c = true) : c = mark := by
  obtain ⟨positive, below⟩ := notLetter
  have itself : caseClass mark = mark := by
    have notUpper : mark.isUpper = false := by
      refine decide_eq_false fun upper => ?_
      have bound : 65 ≤ mark.toNat := upper.1
      omega
    simp [caseClass, Nat.lt_trans below (by decide : 65 < 128), notUpper]
  have notNull : mark ≠ Char.ofNat 0 := by
    rintro rfl
    exact absurd positive (by decide)
  have stands : caseClass c = mark := (beq_iff_eq.mp same).symm.trans itself
  unfold caseClass at stands
  split at stands
  · split at stands
    · rename_i upper
      have code : mark.toNat = c.toNat + 32 := code_of_ofNat stands notNull
      have bound : 65 ≤ c.toNat := (of_decide_eq_true upper).1
      omega
    · exact stands
  · rename_i notAscii
    split at stands
    · rename_i run found
      obtain ⟨member, bound⟩ := run_of_caseRun found
      have behind : ∀ run ∈ CharTable.caseRuns, 65 ≤ run.first + run.shift := by decide +kernel
      have far := behind run member
      have code : mark.toNat = (c.toNat + run.shift).toNat := code_of_ofNat stands notNull
      omega
    · exact stands

end TemplHighlight.CharClass
