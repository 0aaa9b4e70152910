import FilterQuery.Lexeme

namespace FilterQuery

namespace Lexeme

variable {c : Char} {start place : Nat} {chars kept word : List Char}
  {front back : List (Nat × List Char)}

theorem utf8ByteSize_ofList (chars : List Char) :
    (String.ofList chars).utf8ByteSize = byteSize chars := by
  induction chars with
  | nil => rfl
  | cons c rest ih =>
      rw [String.ofList_cons, String.utf8ByteSize_append, String.utf8ByteSize_singleton, ih,
        byteSize]

/-- What stands behind a run starts with no character of the run. -/
theorem takeWhile_of_prefix_dropWhile {keep : Char → Bool}
    (begins : kept <+: chars.dropWhile keep) : kept.takeWhile keep = [] := by
  cases kept with
  | nil => rfl
  | cons c rest =>
      obtain ⟨behind, split⟩ := begins
      have stops := List.head?_dropWhile_not keep chars
      rw [← split, List.cons_append, List.head?_cons] at stops
      rw [List.takeWhile_cons, stops]
      rfl

theorem dropWhile_of_prefix_dropWhile {keep : Char → Bool}
    (begins : kept <+: chars.dropWhile keep) : kept.dropWhile keep = kept := by
  have whole : kept.takeWhile keep ++ kept.dropWhile keep = kept :=
    List.takeWhile_append_dropWhile
  rwa [takeWhile_of_prefix_dropWhile begins] at whole

theorem mem_takeWhile {keep : Char → Bool} (member : c ∈ chars.takeWhile keep) : keep c = true :=
  List.all_eq_true.mp List.all_takeWhile c member

/-- A word does not depend on how much of the text behind it is kept. -/
theorem nextWord_cut (begins : kept <+: (nextWord c chars).2) :
    ∃ rest, (nextWord c chars).1 = c :: rest ∧ nextWord c (rest ++ kept) = (c :: rest, kept) := by
  by_cases bracket : (c == '(' || c == ')') = true
  · have shape : nextWord c chars = ([c], chars) := if_pos bracket
    rw [shape]
    exact ⟨[], rfl, if_pos bracket⟩
  by_cases quoted : (Text.isQuote c && chars.contains c) = true
  · -- The closing quote is part of the word.
    have shape : nextWord c chars = (c :: chars.takeWhile (· != c) ++ [c],
        (chars.dropWhile (· != c)).tail) := by rw [nextWord, if_neg bracket, if_pos quoted]
    have inside : ∀ other ∈ chars.takeWhile (· != c), (other != c) = true :=
      fun _ => mem_takeWhile
    have closed : (Text.isQuote c && (chars.takeWhile (· != c) ++ c :: kept).contains c) = true := by
      rw [(Bool.and_eq_true_iff.mp quoted).1]
      simp
    rw [shape]
    refine ⟨chars.takeWhile (· != c) ++ [c], rfl, ?_⟩
    rw [List.append_assoc, List.singleton_append, nextWord, if_neg bracket, if_pos closed,
      List.takeWhile_append_of_pos inside, List.dropWhile_append_of_pos inside]
    simp
  · have shape : nextWord c chars = (c :: chars.takeWhile isWordChar,
        chars.dropWhile isWordChar) := by rw [nextWord, if_neg bracket, if_neg quoted]
    rw [shape] at begins ⊢
    have inside : ∀ other ∈ chars.takeWhile isWordChar, isWordChar other = true :=
      fun _ => mem_takeWhile
    have within : chars.takeWhile isWordChar ++ kept <+: chars := by
      have whole := (List.prefix_append_right_inj (chars.takeWhile isWordChar)).mpr begins
      rwa [List.takeWhile_append_dropWhile] at whole
    have unclosed :
        ¬ (Text.isQuote c && (chars.takeWhile isWordChar ++ kept).contains c) = true := by
      intro closed
      obtain ⟨quote, closes⟩ := Bool.and_eq_true_iff.mp closed
      have closesAll := within.subset (List.contains_iff_mem.mp closes)
      exact quoted (Bool.and_eq_true_iff.mpr ⟨quote, List.contains_iff_mem.mpr closesAll⟩)
    refine ⟨chars.takeWhile isWordChar, rfl, ?_⟩
    rw [nextWord, if_neg bracket, if_neg unclosed, List.takeWhile_append_of_pos inside,
      List.dropWhile_append_of_pos inside, takeWhile_of_prefix_dropWhile begins,
      dropWhile_of_prefix_dropWhile begins, List.append_nil]

/-- A text that begins with a word of another text has that word first. -/
theorem wordsFrom_cons_cut (notBlank : ¬ Text.isBlank c = true)
    (begins : kept <+: (nextWord c chars).2) :
    wordsFrom start ((nextWord c chars).1 ++ kept) =
      (start, (nextWord c chars).1) ::
        wordsFrom (start + byteSize (nextWord c chars).1) kept := by
  obtain ⟨rest, same, cut⟩ := nextWord_cut begins
  rw [same, List.cons_append, wordsFrom, if_neg notBlank, cut]

/-- Each word of a text stands where its place says, the text cut before or behind it has the same
words up to there, and what is behind it has the words that follow. -/
theorem wordsFrom_cut (words : wordsFrom start chars = front ++ (place, word) :: back) :
    ∃ before after, chars = before ++ word ++ after ∧ place = start + byteSize before ∧
      wordsFrom start before = front ∧
      wordsFrom start (before ++ word) = front ++ [(place, word)] ∧
      wordsFrom (place + byteSize word) after = back := by
  induction start, chars using wordsFrom.induct generalizing front with
  | case1 start =>
      rw [wordsFrom] at words
      cases front <;> cases words
  | case2 start c rest blank ih =>
      rw [wordsFrom, if_pos blank] at words
      obtain ⟨before, after, rfl, rfl, cutBefore, cutBehind, behind⟩ := ih words
      refine ⟨c :: before, after, rfl, ?_, ?_, ?_, behind⟩
      · rw [byteSize, Nat.add_assoc]
      · rwa [wordsFrom, if_pos blank]
      · rw [List.cons_append, wordsFrom, if_pos blank]
        exact cutBehind
  | case3 start c rest notBlank ih =>
      rw [wordsFrom, if_neg notBlank] at words
      have whole := nextWord_append c rest
      cases front with
      | nil =>
          cases words
          have alone := @wordsFrom_cons_cut c place rest [] notBlank List.nil_prefix
          rw [List.append_nil, wordsFrom] at alone
          exact ⟨[], (nextWord c rest).2, whole.symm, rfl, by rw [wordsFrom], alone, rfl⟩
      | cons first front =>
          obtain ⟨rfl, later⟩ := List.cons.inj words
          obtain ⟨before, after, split, rfl, cutBefore, cutBehind, behind⟩ := ih later
          have begins : before ++ word <+: (nextWord c rest).2 := ⟨after, split.symm⟩
          refine ⟨(nextWord c rest).1 ++ before, after, ?_, ?_, ?_, ?_, behind⟩
          · rw [← whole, split, List.append_assoc, List.append_assoc, List.append_assoc]
          · rw [byteSize_append, Nat.add_assoc]
          · rw [wordsFrom_cons_cut notBlank ((List.prefix_append _ _).trans begins), cutBefore]
          · rw [List.append_assoc, wordsFrom_cons_cut notBlank begins, cutBehind, List.cons_append]

theorem wordsFrom_eq_nil_iff :
    wordsFrom start chars = [] ↔ ∀ c ∈ chars, Text.isBlank c = true := by
  induction start, chars using wordsFrom.induct with
  | case1 start => simp [wordsFrom]
  | case2 start c rest blank ih => simp [wordsFrom, blank, ih]
  | case3 start c rest notBlank ih => simp [wordsFrom, notBlank]

end Lexeme

theorem lexemes_cut {schema : Schema} {text : String} {front back : List Lexeme} {lexeme : Lexeme}
    (words : lexemes schema text = front ++ lexeme :: back) :
    ∃ before after, text = before ++ lexeme.text ++ after ∧
      lexeme.start = before.utf8ByteSize ∧ lexemes schema before = front ∧
      lexemes schema (before ++ lexeme.text) = front ++ [lexeme] := by
  obtain ⟨frontWords, later, split, rfl, rest⟩ := List.map_eq_append_iff.mp words
  obtain ⟨⟨place, word⟩, backWords, rfl, rfl, rfl⟩ := List.map_eq_cons_iff.mp rest
  obtain ⟨before, after, whole, rfl, cutBefore, cutBehind, -⟩ := Lexeme.wordsFrom_cut split
  refine ⟨.ofList before, .ofList after, ?_, ?_, ?_, ?_⟩
  · rw [Lexeme.ofWord, ← String.ofList_append, ← String.ofList_append, ← whole,
      String.ofList_toList]
  · rw [Lexeme.utf8ByteSize_ofList, Lexeme.ofWord, Nat.zero_add]
  · rw [lexemes, String.toList_ofList, cutBefore]
  · rw [lexemes, Lexeme.ofWord, ← String.ofList_append, String.toList_ofList, cutBehind,
      List.map_append]
    rfl

end FilterQuery
