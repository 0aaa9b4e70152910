import FilterQuery.Text.LowerCase

namespace FilterQuery.Text

variable {before front back rest : List Char} {c : Char}

/-- Whether characters end a word with a capital sigma, which those put behind them go on with.
Between the two there may be what is ignored for casing.  What stands before the characters is given
backwards. -/
def ReopensSigma (before front back : List Char) : Prop :=
  ∃ word ignored, front = word ++ 'Σ' :: ignored ∧ casedAhead (word.reverse ++ before) = true ∧
    (∀ c ∈ ignored, caseIgnorableRanges.holds c = true) ∧ casedAhead back = true

theorem casedAhead_cons : casedAhead (c :: rest) =
    if caseIgnorableRanges.holds c then casedAhead rest else casedRanges.holds c := by
  unfold casedAhead
  rw [List.dropWhile_cons]
  cases caseIgnorableRanges.holds c <;> rfl

theorem casedAhead_append : casedAhead (front ++ back) =
    if front.all caseIgnorableRanges.holds then casedAhead back else casedAhead front := by
  induction front with
  | nil => rfl
  | cons c rest ih =>
      rw [List.cons_append, casedAhead_cons, casedAhead_cons, ih, List.all_cons]
      cases caseIgnorableRanges.holds c <;> rfl

theorem casedAhead_of_ignored (ignored : front.all caseIgnorableRanges.holds = true) :
    casedAhead front = false := by
  have whole := @casedAhead_append front []
  rwa [List.append_nil, if_pos ignored] at whole

/-- A sigma no longer ends a word if and only if the word goes on behind what is ignored. -/
theorem isFinalSigma_append : isFinalSigma before (rest ++ back) = isFinalSigma before rest ↔
    ¬ (casedAhead before = true ∧ (∀ d ∈ rest, caseIgnorableRanges.holds d = true) ∧
      casedAhead back = true) := by
  rw [← List.all_eq_true, isFinalSigma, isFinalSigma, casedAhead_append]
  cases ignored : rest.all caseIgnorableRanges.holds with
  | false => simp
  | true =>
      rw [casedAhead_of_ignored ignored]
      cases casedAhead before <;> cases casedAhead back <;> simp

theorem reopensSigma_nil : ¬ ReopensSigma before [] back := by
  rintro ⟨word, ignored, split, -⟩
  cases word <;> cases split

/-- The sigma that ends the word is the first of the characters or a later one. -/
theorem reopensSigma_cons : ReopensSigma before (c :: rest) back ↔
    (c = 'Σ' ∧ casedAhead before = true ∧ (∀ d ∈ rest, caseIgnorableRanges.holds d = true) ∧
      casedAhead back = true) ∨ ReopensSigma (c :: before) rest back := by
  constructor
  · rintro ⟨word, ignored, split, ends, ignoredBehind, reopens⟩
    cases word with
    | nil =>
        cases split
        exact .inl ⟨rfl, ends, ignoredBehind, reopens⟩
    | cons first word =>
        cases split
        refine .inr ⟨word, ignored, rfl, ?_, ignoredBehind, reopens⟩
        rwa [List.reverse_cons, List.append_assoc] at ends
  · rintro (⟨rfl, ends, ignoredBehind, reopens⟩ | ⟨word, ignored, rfl, ends, behind⟩)
    · exact ⟨[], rest, rfl, ends, ignoredBehind, reopens⟩
    · refine ⟨c :: word, ignored, rfl, ?_, behind⟩
      rwa [List.reverse_cons, List.append_assoc]

/-- One character lowered in front of a longer text, where the one lowered in front of the shorter
text is to come first. -/
theorem lowerBetween_prefix_iff {shown whole : List Char} :
    lowerBetween before c rest ++ shown <+: lowerBetween before c (rest ++ back) ++ whole ↔
      ¬ (c = 'Σ' ∧ casedAhead before = true ∧
        (∀ d ∈ rest, caseIgnorableRanges.holds d = true) ∧ casedAhead back = true) ∧
      shown <+: whole := by
  by_cases sigma : c = 'Σ'
  · subst sigma
    simp only [lowerBetween, if_true, true_and, ← isFinalSigma_append, List.singleton_append,
      List.cons_prefix_cons]
    refine and_congr_left' ?_
    cases isFinalSigma before rest <;> cases isFinalSigma before (rest ++ back) <;> simp
  · simp [lowerBetween, sigma, List.prefix_append_right_inj]

theorem lowerAfter_prefix_iff : lowerAfter before front <+: lowerAfter before (front ++ back) ↔
    ¬ ReopensSigma before front back := by
  induction front generalizing before with
  | nil => exact iff_of_true List.nil_prefix reopensSigma_nil
  | cons c rest ih =>
      rw [List.cons_append, lowerAfter, lowerAfter, lowerBetween_prefix_iff, ih, reopensSigma_cons,
        not_or]

theorem lower_prefix_iff {text more : String} :
    (lower text).toList <+: (lower (text ++ more)).toList ↔
      ¬ ReopensSigma [] text.toList more.toList := by
  rw [lower, lower, String.toList_ofList, String.toList_ofList, String.toList_append,
    lowerAfter_prefix_iff]

end FilterQuery.Text
