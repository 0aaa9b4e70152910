import FilterQuery.Proofs.SpacedWords

namespace FilterQuery

namespace Lexeme

variable {c : Char} {start : Nat} {front word rest : List Char}

/-- Whether a text is empty or ends with a blank. -/
def EndsBlank (front : List Char) : Prop :=
  ∀ last ∈ front.getLast?, Text.isBlank last = true

theorem EndsBlank.tail (ends : EndsBlank (c :: rest)) : EndsBlank rest := by
  intro last isLast
  refine ends last ?_
  rw [List.getLast?_cons, isLast]
  rfl

theorem EndsBlank.exists_of_not_blank (ends : EndsBlank (c :: rest))
    (notBlank : ¬ Text.isBlank c = true) : ∃ d ∈ rest, Text.isBlank d = true := by
  cases last : rest.getLast? with
  | none =>
      have only : (c :: rest).getLast? = some c := by
        rw [List.getLast?_cons, last]
        rfl
      exact absurd (ends c only) notBlank
  | some d => exact ⟨d, List.mem_of_getLast? last, ends.tail d last⟩

theorem span_append_of_stop {keep : Char → Bool} (stops : ∃ d ∈ rest, keep d = false) :
    (rest ++ word).takeWhile keep = rest.takeWhile keep ∧
      (rest ++ word).dropWhile keep = rest.dropWhile keep ++ word := by
  induction rest with
  | nil =>
      obtain ⟨d, listed, -⟩ := stops
      cases listed
  | cons c rest ih =>
      by_cases kept : keep c = true
      · obtain ⟨d, listed, stop⟩ := stops
        have later : d ∈ rest := by
          rcases List.mem_cons.mp listed with rfl | later
          · rw [kept] at stop
            cases stop
          · exact later
        obtain ⟨taken, dropped⟩ := ih ⟨d, later, stop⟩
        simp [kept, taken, dropped]
      · simp [kept]

/-- What follows a blank has no part in the words before it, unless it closes a quote. -/
theorem nextWord_append_unquoted (blank : ∃ d ∈ rest, Text.isBlank d = true)
    (unquoted : ∀ d ∈ word, Text.isQuote d = false) :
    nextWord c (rest ++ word) = ((nextWord c rest).1, (nextWord c rest).2 ++ word) := by
  by_cases bracket : (c == '(' || c == ')') = true
  · simp only [nextWord, if_pos bracket]
  have same : (Text.isQuote c && (rest ++ word).contains c) =
      (Text.isQuote c && rest.contains c) := by
    cases quote : Text.isQuote c with
    | false => rfl
    | true =>
        have fresh : c ∉ word := by
          intro listed
          rw [unquoted c listed] at quote
          cases quote
        simp [fresh]
  by_cases quoted : (Text.isQuote c && rest.contains c) = true
  · have closes : ∃ d ∈ rest, (d != c) = false :=
      ⟨c, List.contains_iff_mem.mp (Bool.and_eq_true_iff.mp quoted).2, by simp⟩
    obtain ⟨taken, dropped⟩ := @span_append_of_stop word _ _ closes
    have behind := dropWhile_ne_of_mem (List.contains_iff_mem.mp (Bool.and_eq_true_iff.mp quoted).2)
    have closing : (rest.dropWhile (· != c) ++ word).tail =
        (rest.dropWhile (· != c)).tail ++ word := by
      rw [behind]
      rfl
    simp only [nextWord, if_neg bracket, same, if_pos quoted, taken, dropped, closing]
  · have stops : ∃ d ∈ rest, isWordChar d = false := by
      obtain ⟨d, listed, isBlank⟩ := blank
      exact ⟨d, listed, by simp [isWordChar, isBlank]⟩
    obtain ⟨taken, dropped⟩ := @span_append_of_stop word _ _ stops
    simp only [nextWord, if_neg bracket, same, if_neg quoted, taken, dropped]

/-- Behind a blank, a word that does not close a quote is one more word. -/
theorem wordsFrom_append_word (ends : EndsBlank front) (alone : StandsAlone word)
    (unquoted : ∀ d ∈ word, Text.isQuote d = false) :
    wordsFrom start (front ++ word) = wordsFrom start front ++ [(start + byteSize front, word)] := by
  induction start, front using wordsFrom.induct with
  | case1 start =>
      have only := wordsFrom_standsAlone alone endsWord_nil start
      rw [List.append_nil, wordsFrom] at only
      rw [List.nil_append, only, wordsFrom, byteSize]
      rfl
  | case2 start c rest blank ih =>
      rw [List.cons_append, wordsFrom, if_pos blank, ih ends.tail, wordsFrom, if_pos blank,
        byteSize, Nat.add_assoc]
  | case3 start c rest notBlank ih =>
      have whole := nextWord_append c rest
      have endsBehind : EndsBlank (nextWord c rest).2 := by
        intro last isLast
        refine ends last ?_
        rw [← whole, List.getLast?_append, isLast]
        rfl
      have place : byteSize (nextWord c rest).1 + byteSize (nextWord c rest).2 =
          byteSize (c :: rest) := by rw [← byteSize_append, whole]
      rw [List.cons_append, wordsFrom, if_neg notBlank,
        nextWord_append_unquoted (ends.exists_of_not_blank notBlank) unquoted, ih endsBehind,
        wordsFrom, if_neg notBlank, Nat.add_assoc, place]
      rfl

theorem getLast?_nextWord (notBlank : ¬ Text.isBlank c = true) :
    ∀ last ∈ (nextWord c rest).1.getLast?, Text.isBlank last = false := by
  have solid : Text.isBlank c = false := Bool.not_eq_true _ ▸ notBlank
  intro last isLast
  unfold nextWord at isLast
  split at isLast
  · cases isLast
    exact solid
  · split at isLast
    · rw [List.getLast?_concat] at isLast
      cases isLast
      exact solid
    · rcases List.mem_cons.mp (List.mem_of_getLast? isLast) with rfl | inside
      · exact solid
      · have isWord := mem_takeWhile inside
        simp only [isWordChar, Bool.and_eq_true, Bool.not_eq_true'] at isWord
        exact isWord.1.1

theorem not_blank_of_mem_wordsFrom {place : Nat} (listed : (place, word) ∈ wordsFrom start front) :
    word ≠ [] ∧ ∀ last ∈ word.getLast?, Text.isBlank last = false := by
  induction start, front using wordsFrom.induct with
  | case1 start =>
      rw [wordsFrom] at listed
      cases listed
  | case2 start c rest blank ih =>
      rw [wordsFrom, if_pos blank] at listed
      exact ih listed
  | case3 start c rest notBlank ih =>
      rw [wordsFrom, if_neg notBlank] at listed
      rcases List.mem_cons.mp listed with same | later
      · cases same
        refine ⟨?_, getLast?_nextWord notBlank⟩
        unfold nextWord
        split
        · exact List.cons_ne_nil _ _
        · split <;> exact List.cons_ne_nil _ _
      · exact ih later

theorem wordsFrom_of_append {place : Nat} {words : List (Nat × List Char)}
    (split : wordsFrom start (front ++ word) = words ++ [(place, word)]) :
    wordsFrom start front = words ∧ place = start + byteSize front := by
  have listed : (place, word) ∈ wordsFrom start (front ++ word) := by simp [split]
  obtain ⟨nonempty, solid⟩ := not_blank_of_mem_wordsFrom listed
  obtain ⟨before, after, whole, place, cutBefore, -, behind⟩ := wordsFrom_cut split
  have blanks := wordsFrom_eq_nil_iff.mp behind
  -- Anything behind the last word would end with a blank, but the text ends like the word.
  have nothing : after = [] := by
    rcases List.eq_nil_or_concat after with none | ⟨init, last, rfl⟩
    · exact none
    · have ending := congrArg List.getLast? whole
      have final := List.getLast?_eq_some_getLast nonempty
      rw [List.concat_eq_append, ← List.append_assoc, List.getLast?_concat, List.getLast?_append,
        final] at ending
      have blank := blanks last (by simp)
      rw [solid last (final.trans ending)] at blank
      cases blank
  subst nothing
  rw [List.append_nil] at whole
  obtain ⟨rfl, -⟩ := List.append_inj' whole rfl
  exact ⟨cutBefore, place⟩

end Lexeme
end FilterQuery
