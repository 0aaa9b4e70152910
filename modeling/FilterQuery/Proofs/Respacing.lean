import FilterQuery.Proofs.LastWord

namespace FilterQuery

/-! Nothing but white space is lost when a text is cut into words, and how much of it stands between
the words does not matter.

What a word is depends on the text behind it only by the quotes that stand there.  Writing the words
anew with single blanks between them moves no quote in front of another, so the same words are cut
off.
-/

variable {schema : Schema} {text : String}

/-- Whether words are all that there is in a text but white space.  Each stands where its places
say, and ends before the next one starts. -/
structure IsCutInto (text : String) (words : List Lexeme) : Prop where
  nonempty : ∀ lexeme ∈ words, lexeme.text ≠ ""
  inOrder : words.Pairwise fun lexeme later => lexeme.stop ≤ later.start
  between : ∀ lexeme ∈ words, ∃ before behind, text = before ++ lexeme.text ++ behind ∧
    lexeme.start = before.utf8ByteSize ∧ lexeme.stop = (before ++ lexeme.text).utf8ByteSize
  outside : ∀ before c behind, text = before ++ String.singleton c ++ behind →
    (∀ lexeme ∈ words,
      ¬ (lexeme.start ≤ before.utf8ByteSize ∧ before.utf8ByteSize < lexeme.stop)) →
    Text.isBlank c = true

namespace Lexeme

variable {c : Char} {start place : Nat} {chars front back rest word behind : List Char}

theorem byteSize_eq_zero_iff : byteSize chars = 0 ↔ chars = [] := by
  cases chars with
  | nil => simp [byteSize]
  | cons c rest =>
      have some := c.utf8Size_pos
      simp only [byteSize, reduceCtorEq, iff_false]
      omega

/-- Of two beginnings of a text the one that takes no more bytes begins the other. -/
theorem exists_append_of_byteSize_le (same : word ++ rest = front ++ back)
    (within : byteSize word ≤ byteSize front) :
    ∃ between, front = word ++ between ∧ rest = between ++ back := by
  rcases List.append_eq_append_iff.mp same with ⟨between, rfl, rfl⟩ | ⟨between, rfl, rfl⟩
  · exact ⟨between, rfl, rfl⟩
  · rw [byteSize_append] at within
    have none : between = [] := byteSize_eq_zero_iff.mp (by omega)
    subst none
    exact ⟨[], by simp, by simp⟩

theorem stop_of_mem {lexeme : Lexeme} (listed : lexeme ∈ lexemes schema text) :
    lexeme.stop = lexeme.start + lexeme.text.utf8ByteSize := by
  obtain ⟨word, -, rfl⟩ := List.mem_map.mp listed
  rw [ofWord, utf8ByteSize_ofList]

theorem start_le_of_mem_wordsFrom (listed : (place, word) ∈ wordsFrom start chars) :
    start ≤ place := by
  obtain ⟨earlier, later, split⟩ := List.append_of_mem listed
  obtain ⟨before, -, -, rfl, -⟩ := wordsFrom_cut split
  exact Nat.le_add_right start _

theorem pairwise_wordsFrom : (wordsFrom start chars).Pairwise fun word later =>
    word.1 + byteSize word.2 ≤ later.1 := by
  induction start, chars using wordsFrom.induct with
  | case1 start =>
      rw [wordsFrom]
      exact .nil
  | case2 start c rest blank ih =>
      rw [wordsFrom, if_pos blank]
      exact ih
  | case3 start c rest notBlank ih =>
      rw [wordsFrom, if_neg notBlank]
      exact .cons (fun _ later => start_le_of_mem_wordsFrom later) ih

/-- A character that is in no word is white space. -/
theorem blank_of_outside (start : Nat) (split : chars = front ++ c :: back)
    (outside : ∀ word ∈ wordsFrom start chars,
      ¬ (word.1 ≤ start + byteSize front ∧ start + byteSize front < word.1 + byteSize word.2)) :
    Text.isBlank c = true := by
  induction start, chars using wordsFrom.induct generalizing front with
  | case1 start => cases front <;> cases split
  | case2 start first rest blank ih =>
      rw [wordsFrom, if_pos blank] at outside
      cases front with
      | nil =>
          cases split
          exact blank
      | cons first front =>
          cases split
          refine ih rfl ?_
          rwa [byteSize, ← Nat.add_assoc] at outside
  | case3 start first rest notBlank ih =>
      rw [wordsFrom, if_neg notBlank, List.forall_mem_cons] at outside
      obtain ⟨notWithin, notLater⟩ := outside
      have whole := (nextWord_append first rest).trans split
      have passed : byteSize (nextWord first rest).1 ≤ byteSize front := by
        have past : ¬ start + byteSize front < start + byteSize (nextWord first rest).1 :=
          not_and.mp notWithin (Nat.le_add_right _ _)
        omega
      obtain ⟨between, rfl, behind⟩ := exists_append_of_byteSize_le whole passed
      refine ih behind ?_
      rwa [byteSize_append, ← Nat.add_assoc] at notLater

/-- A word is cut off in the same way if the text ends behind it or goes on with a blank, and has
no other characters then but blanks and such as stood there. -/
theorem nextWord_respaced (notBlank : ¬ Text.isBlank c = true) (ends : EndsWord behind)
    (known : ∀ d ∈ behind, d = ' ' ∨ d ∈ (nextWord c rest).2) :
    ∃ tail, (nextWord c rest).1 = c :: tail ∧
      nextWord c (tail ++ behind) = (c :: tail, behind) := by
  by_cases bracket : (c == '(' || c == ')') = true
  · have shape : nextWord c rest = ([c], rest) := if_pos bracket
    rw [shape]
    exact ⟨[], rfl, if_pos bracket⟩
  by_cases quoted : (Text.isQuote c && rest.contains c) = true
  · have shape : nextWord c rest = (c :: (rest.takeWhile (· != c) ++ [c]),
        (rest.dropWhile (· != c)).tail) := by
      rw [nextWord, if_neg bracket, if_pos quoted, List.cons_append]
    have fresh : c ∉ rest.takeWhile (· != c) := fun inside => by simpa using mem_takeWhile inside
    obtain ⟨_, _, same, -, cut⟩ := standsAlone_quoted (Bool.and_eq_true_iff.mp quoted).1 fresh
    cases same
    rw [shape]
    exact ⟨_, rfl, cut behind ends⟩
  · have shape : nextWord c rest = (c :: rest.takeWhile isWordChar,
        rest.dropWhile isWordChar) := by rw [nextWord, if_neg bracket, if_neg quoted]
    rw [shape] at known ⊢
    have inside : ∀ d ∈ rest.takeWhile isWordChar, isWordChar d = true := fun _ => mem_takeWhile
    -- The quote that starts the word, if any, is not closed by what is put behind the word.
    have unclosed :
        ¬ (Text.isQuote c && (rest.takeWhile isWordChar ++ behind).contains c) = true := by
      intro closed
      obtain ⟨quote, closes⟩ := Bool.and_eq_true_iff.mp closed
      refine quoted (Bool.and_eq_true_iff.mpr ⟨quote, List.contains_iff_mem.mpr ?_⟩)
      rcases List.mem_append.mp (List.contains_iff_mem.mp closes) with within | later
      · exact (List.takeWhile_sublist _).mem within
      · rcases known c later with rfl | later
        · exact absurd rfl notBlank
        · exact (List.dropWhile_sublist _).mem later
    refine ⟨rest.takeWhile isWordChar, rfl, ?_⟩
    rw [nextWord, if_neg bracket, if_neg unclosed, List.takeWhile_append_of_pos inside,
      List.dropWhile_append_of_pos inside, ends.takeWhile, ends.dropWhile, List.append_nil]

theorem mem_of_mem_spaced
    (listed : c ∈ List.intercalate [' '] ((wordsFrom start chars).map Prod.snd)) :
    c = ' ' ∨ c ∈ chars := by
  have within : ∀ word ∈ (wordsFrom start chars).map Prod.snd, ∀ d ∈ word, d ∈ chars := by
    intro word among d inside
    obtain ⟨⟨place, word⟩, cut, rfl⟩ := List.mem_map.mp among
    obtain ⟨earlier, later, split⟩ := List.append_of_mem cut
    obtain ⟨before, after, rfl, -⟩ := wordsFrom_cut split
    simp [inside]
  generalize (wordsFrom start chars).map Prod.snd = words at listed within
  induction words with
  | nil => cases listed
  | cons word rest ih =>
      obtain ⟨own, others⟩ := List.forall_mem_cons.mp within
      cases rest with
      | nil => exact .inr (own c (by simpa using listed))
      | cons next more =>
          rw [List.intercalate_cons_cons, List.append_assoc, List.mem_append,
            List.mem_append, List.mem_singleton] at listed
          rcases listed with first | blank | later
          · exact .inr (own c first)
          · exact .inl blank
          · exact ih later others

/-- The words of a text with single blanks between them are its words again. -/
theorem wordsFrom_respaced (again : Nat) :
    (wordsFrom again (List.intercalate [' '] ((wordsFrom start chars).map Prod.snd))).map Prod.snd =
      (wordsFrom start chars).map Prod.snd := by
  induction start, chars using wordsFrom.induct generalizing again with
  | case1 start =>
      rw [wordsFrom, List.map_nil, List.intercalate_nil, wordsFrom]
      rfl
  | case2 start c rest blank ih =>
      rw [wordsFrom, if_pos blank]
      exact ih again
  | case3 start c rest notBlank ih =>
      rw [wordsFrom, if_neg notBlank, List.map_cons]
      have blank : Text.isBlank ' ' = true := rfl
      cases later : (wordsFrom (start + byteSize (nextWord c rest).1) (nextWord c rest).2).map
        Prod.snd with
      | nil =>
          obtain ⟨tail, same, cut⟩ := @nextWord_respaced c rest [] notBlank endsWord_nil
            (List.forall_mem_nil _)
          rw [List.append_nil] at cut
          rw [List.intercalate_singleton, same, wordsFrom, if_neg notBlank, cut, wordsFrom]
          rfl
      | cons next more =>
          have known : ∀ d ∈ ' ' :: List.intercalate [' '] (next :: more),
              d = ' ' ∨ d ∈ (nextWord c rest).2 := by
            rw [List.forall_mem_cons]
            refine ⟨.inl rfl, fun d listed => ?_⟩
            rw [← later] at listed
            exact mem_of_mem_spaced listed
          obtain ⟨tail, same, cut⟩ := nextWord_respaced notBlank endsWord_blank known
          rw [List.intercalate_cons_cons, List.append_assoc, List.singleton_append, same,
            List.cons_append, wordsFrom, if_neg notBlank, cut, List.map_cons, wordsFrom,
            if_pos blank, ← later, ih]

end Lexeme

theorem isCutInto_lexemes (schema : Schema) (text : String) :
    IsCutInto text (lexemes schema text) := by
  refine ⟨?_, ?_, ?_, ?_⟩
  · rw [lexemes, List.forall_mem_map]
    intro word listed none
    obtain ⟨some, -⟩ := Lexeme.not_blank_of_mem_wordsFrom listed
    exact some (String.ofList_eq_empty_iff.mp none)
  · exact List.pairwise_map.mpr Lexeme.pairwise_wordsFrom
  · intro lexeme listed
    obtain ⟨front, back, split⟩ := List.append_of_mem listed
    obtain ⟨before, behind, whole, place, -⟩ := lexemes_cut split
    refine ⟨before, behind, whole, place, ?_⟩
    rw [String.utf8ByteSize_append, ← place]
    exact Lexeme.stop_of_mem listed
  · intro before c behind split outside
    have chars : text.toList = before.toList ++ c :: behind.toList := by
      rw [split, String.toList_append, String.toList_append, String.toList_singleton,
        List.append_assoc, List.singleton_append]
    refine Lexeme.blank_of_outside 0 chars ?_
    rw [lexemes, List.forall_mem_map] at outside
    simpa only [Lexeme.ofWord, Nat.zero_add, ← Lexeme.utf8ByteSize_ofList, String.ofList_toList]
      using outside

def Lexeme.word (lexeme : Lexeme) : String × LexemeKind :=
  (lexeme.text, lexeme.kind)

def respaced (schema : Schema) (text : String) : String :=
  " ".intercalate ((lexemes schema text).map Lexeme.text)

theorem lexemes_respaced : (lexemes schema (respaced schema text)).map Lexeme.word =
    (lexemes schema text).map Lexeme.word := by
  have spaced : (respaced schema text).toList =
      List.intercalate [' '] ((Lexeme.wordsFrom 0 text.toList).map Prod.snd) := by
    rw [respaced, String.toList_intercalate, lexemes, List.map_map, List.map_map]
    congr 1
    exact List.map_congr_left fun _ _ => String.toList_ofList
  have told : ∀ chars, (lexemes schema chars).map Lexeme.word =
      ((Lexeme.wordsFrom 0 chars.toList).map Prod.snd).map fun word =>
        (String.ofList word, Lexeme.classify schema (String.ofList word)) := by
    intro chars
    rw [lexemes, List.map_map, List.map_map]
    rfl
  rw [told, told, spaced, Lexeme.wordsFrom_respaced]

/-- What words stand for does not depend on their places. -/
theorem readWords_congr {words others : List Lexeme} {behindOperator : Bool}
    (same : words.map Lexeme.word = others.map Lexeme.word) :
    readWords behindOperator words = readWords behindOperator others := by
  induction words generalizing others behindOperator with
  | nil =>
      cases List.map_eq_nil_iff.mp same.symm
      rfl
  | cons lexeme rest ih =>
      obtain ⟨other, later, rfl, alike, laterAlike⟩ := List.map_eq_cons_iff.mp same.symm
      obtain ⟨spelled, kind⟩ := Prod.mk.inj alike
      have named : other.token? behindOperator = lexeme.token? behindOperator := by
        simp only [Lexeme.token?, spelled, kind]
      rw [readWords, readWords, named]
      cases lexeme.token? behindOperator with
      | none => rfl
      | some token => exact congrArg (Option.map (token :: ·)) (ih laterAlike.symm)

namespace QueryText

theorem ruleGroup_eq_ok_iff {group : RuleGroup} : ruleGroup schema text = .ok group ↔
    ∃ tokens, readTokens schema text = some tokens ∧ IsTypedQuery schema tokens ∧
      group = .ofTokens tokens := by
  constructor
  · intro done
    obtain ⟨tokens, reads, query⟩ := ruleGroup_ok_iff.mp ⟨group, done⟩
    exact ⟨tokens, reads, query, Except.ok.inj (done.symm.trans (ruleGroup_of_tokens reads query))⟩
  · rintro ⟨tokens, reads, query, rfl⟩
    exact ruleGroup_of_tokens reads query

/-- The words of a text are all that there is in it but white space, each with its places.  Written
with single blanks between them they are the same words, and so the same query if any. -/
theorem respaced_alike (schema : Schema) (text : String) :
    IsCutInto text (lexemes schema text) ∧
    (lexemes schema (respaced schema text)).map Lexeme.word =
      (lexemes schema text).map Lexeme.word ∧
    ∀ group, ruleGroup schema (respaced schema text) = .ok group ↔
      ruleGroup schema text = .ok group := by
  refine ⟨isCutInto_lexemes schema text, lexemes_respaced, fun group => ?_⟩
  have reads : readTokens schema (respaced schema text) = readTokens schema text :=
    readWords_congr lexemes_respaced
  rw [ruleGroup_eq_ok_iff, ruleGroup_eq_ok_iff, reads]

end QueryText
end FilterQuery
