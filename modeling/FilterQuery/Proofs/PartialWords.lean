import FilterQuery.Proofs.Completion
import FilterQuery.Proofs.OfferedTokens

namespace FilterQuery

variable {schema : Schema} {text word : String}

def Suggestion.Mentions (entry : Suggestion) (word : String) : Prop :=
  (Text.lower word).toList <:+: (Text.lower entry.label).toList ∨
    (Text.lower word).toList <:+: (Text.lower entry.name).toList

instance (entry : Suggestion) (word : String) : Decidable (entry.Mentions word) :=
  inferInstanceAs (Decidable (_ ∨ _))

theorem Suggestion.accepts_eq_mentions (entry : Suggestion) (word : String) :
    MatchKey.labelOrName.accepts word entry.name entry.label = decide (entry.Mentions word) := by
  rw [Bool.eq_iff_iff, decide_eq_true_iff, MatchKey.accepts_iff, Mentions]
  simp only [true_and]

namespace QueryText

theorem endsBlank_append (nonempty : word ≠ "") : endsBlank (text ++ word) = endsBlank word := by
  have some : word.toList ≠ [] := fun none => nonempty (String.toList_eq_nil_iff.mp none)
  rw [endsBlank, endsBlank, String.toList_append, List.getLast?_append_of_ne_nil _ some]

theorem endsBlank_of_isPlain (plain : Lexeme.isPlain word.toList = true) :
    endsBlank word = false := by
  rw [Lexeme.isPlain, List.all_eq_true] at plain
  unfold endsBlank
  cases final : word.toList.getLast? with
  | none => rfl
  | some last =>
      have wordChar := (Bool.and_eq_true_iff.mp (plain last (List.mem_of_getLast? final))).1
      simp only [Lexeme.isWordChar, Bool.and_eq_true, Bool.not_eq_true'] at wordChar
      exact wordChar.1.1

theorem classify_ne_bracket (plain : Lexeme.isPlain word.toList = true) :
    (Lexeme.classify schema word != .bracket) = true := by
  rw [Lexeme.classify_of_isPlain plain]
  repeat' split
  all_goals rfl

/-- A plain word behind a blank is still being typed, and the words before it are those of the text
before it. -/
theorem splitPartial_plain (ends : Lexeme.EndsBlank text.toList) (nonempty : word ≠ "")
    (plain : Lexeme.isPlain word.toList = true) :
    splitPartial (text ++ word) (lexemes schema (text ++ word)) = (lexemes schema text, word) := by
  have some : word.toList ≠ [] := fun none => nonempty (String.toList_eq_nil_iff.mp none)
  have adds : AddsWord schema text word (Lexeme.classify schema word) :=
    addsWord_classify ends (Lexeme.standsAlone_plain plain some) (Lexeme.unquoted_of_isPlain plain)
  have unfinished : isPartial (text ++ word) ⟨word, text.utf8ByteSize,
      text.utf8ByteSize + word.utf8ByteSize, Lexeme.classify schema word⟩ = true := by
    simp [isPartial, endsBlank_append nonempty, endsBlank_of_isPlain plain,
      String.utf8ByteSize_append, classify_ne_bracket plain, Lexeme.isQuoted_of_isPlain plain]
  rw [adds, splitPartial, List.getLast?_concat]
  simp only [unfinished, if_true, List.dropLast_concat]

/-- Behind a text that is empty or ends with a blank, completing a word without blanks, quotes and
brackets gives those of the entries that may come next in which the word occurs.  If a word of the
text is refused it is refused in both cases alike. -/
theorem completions_of_partial (next : text = "" ∨ endsBlank text = true) (nonempty : word ≠ "")
    (plain : ∀ c ∈ word.toList,
      Text.isBlank c = false ∧ Text.isQuote c = false ∧ c ≠ '(' ∧ c ≠ ')') :
    completions schema (text ++ word) =
      (completions schema text).map (List.filter fun entry => entry.Mentions word) := by
  have ends : Lexeme.EndsBlank text.toList := by
    intro last isLast
    rcases next with rfl | blank
    · cases isLast
    · rwa [endsBlank, isLast] at blank
  have isPlain : Lexeme.isPlain word.toList = true := by
    simp only [Lexeme.isPlain, Lexeme.isWordChar, List.all_eq_true, Bool.and_eq_true,
      Bool.not_eq_true', bne_iff_ne]
    intro c listed
    obtain ⟨notBlank, notQuote, notOpening, notClosing⟩ := plain c listed
    exact ⟨⟨⟨notBlank, notOpening⟩, notClosing⟩, notQuote⟩
  simp only [completions, splitPartial_of_endsBlank ends, splitPartial_plain ends nonempty isPlain]
  cases enterAll (.new schema) 0 (lexemes schema text) with
  | error error => rfl
  | ok entered =>
      simp only [Draft.suggestMatching_nothing, Draft.suggestMatching_eq_filter entered _ word,
        Suggestion.accepts_eq_mentions]
      cases entered.suggest (lexemes schema text).length "" with
      | error error => rfl
      | ok offered => rfl

def combinatorEntries : List Suggestion :=
  [⟨"AND", "AND", .combinator, .ofList [.field, .group]⟩,
    ⟨"OR", "OR", .combinator, .ofList [.field, .group]⟩]

/-- A whole combinator is completed like any other word, here behind a quote that is not closed. -/
theorem openQuote_completions :
    completions .builtin "text in 'a " = .ok combinatorEntries ∧
      completions .builtin "text in 'a or" =
        .ok [⟨"OR", "OR", .combinator, .ofList [.field, .group]⟩] := by
  have words : lexemes .builtin "text in 'a " =
      [⟨"text", 0, 4, .field⟩, ⟨"in", 5, 7, .operator⟩, ⟨"'a", 8, 10, .invalid⟩] := by
    decide +kernel
  have offered : completions .builtin "text in 'a " = .ok combinatorEntries := by
    rw [completions, words]
    rfl
  have mentioning : (combinatorEntries.filter fun entry => entry.Mentions "or") =
      [⟨"OR", "OR", .combinator, .ofList [.field, .group]⟩] := by
    decide +kernel
  have plain : ∀ c ∈ "or".toList,
      Text.isBlank c = false ∧ Text.isQuote c = false ∧ c ≠ '(' ∧ c ≠ ')' :=
    List.forall_mem_cons.mpr ⟨by decide, List.forall_mem_singleton.mpr (by decide)⟩
  have completed := @completions_of_partial .builtin "text in 'a " "or" (.inr (by decide +kernel))
    (by decide) plain
  rw [offered, Except.map, mentioning] at completed
  exact ⟨offered, completed⟩

end QueryText
end FilterQuery
