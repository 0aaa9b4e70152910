import FilterQuery.Proofs.Typing

namespace FilterQuery

variable {schema : Schema} {tokens : List Token} {name : String}

namespace Lexeme

variable {c : Char} {word rest behind inside : List Char} {words : List (List Char)}

def EndsWord (behind : List Char) : Prop :=
  ∀ next ∈ behind.head?, Text.isBlank next = true

/-- Whether characters are the first word of each text that starts with them and then goes on with
a blank, if at all. -/
def StandsAlone (word : List Char) : Prop :=
  ∃ c rest, word = c :: rest ∧ Text.isBlank c = false ∧
    ∀ behind, EndsWord behind → nextWord c (rest ++ behind) = (word, behind)

theorem endsWord_nil : EndsWord [] := nofun

theorem endsWord_blank : EndsWord (' ' :: rest) := by
  intro next first
  cases first
  rfl

theorem EndsWord.takeWhile (ends : EndsWord behind) : behind.takeWhile isWordChar = [] := by
  cases behind with
  | nil => rfl
  | cons next rest =>
      have blank := ends next rfl
      rw [List.takeWhile_cons, isWordChar, blank]
      rfl

theorem EndsWord.dropWhile (ends : EndsWord behind) : behind.dropWhile isWordChar = behind := by
  have whole : behind.takeWhile isWordChar ++ behind.dropWhile isWordChar = behind :=
    List.takeWhile_append_dropWhile
  rwa [ends.takeWhile] at whole

/-- Whether characters neither part words nor quote them. -/
def isPlain (chars : List Char) : Bool :=
  chars.all fun c => isWordChar c && !Text.isQuote c

theorem standsAlone_plain (plain : isPlain word = true) (nonempty : word ≠ []) :
    StandsAlone word := by
  cases word with
  | nil => exact absurd rfl nonempty
  | cons c rest =>
      simp only [isPlain, List.all_cons, List.all_eq_true, Bool.and_eq_true,
        Bool.not_eq_true'] at plain
      obtain ⟨⟨isWord, notQuote⟩, others⟩ := plain
      have inside : ∀ d ∈ rest, isWordChar d = true := fun d listed => (others d listed).1
      simp only [isWordChar, Bool.and_eq_true, Bool.not_eq_true', bne_iff_ne] at isWord
      obtain ⟨⟨notBlank, notOpening⟩, notClosing⟩ := isWord
      refine ⟨c, rest, rfl, notBlank, ?_⟩
      intro behind ends
      have notBracket : ¬ (c == '(' || c == ')') = true := by simp [notOpening, notClosing]
      have unquoted : ¬ (Text.isQuote c && (rest ++ behind).contains c) = true := by
        simp [notQuote]
      rw [nextWord, if_neg notBracket, if_neg unquoted, List.takeWhile_append_of_pos inside,
        List.dropWhile_append_of_pos inside, ends.takeWhile, ends.dropWhile, List.append_nil]

theorem standsAlone_bracket (half : Bracket) : StandsAlone half.text.toList := by
  cases half with
  | opening => exact ⟨'(', [], rfl, rfl, fun _ _ => rfl⟩
  | closing => exact ⟨')', [], rfl, rfl, fun _ _ => rfl⟩

/-- Between quotes of one kind anything may stand but that quote. -/
theorem standsAlone_quoted (quote : Text.isQuote c = true) (fresh : c ∉ inside) :
    StandsAlone (c :: (inside ++ [c])) := by
  have notBlank : Text.isBlank c = false ∧ (c == '(' || c == ')') = false := by
    rcases Bool.or_eq_true_iff.mp quote with double | single
    · rw [beq_iff_eq.mp double]
      exact ⟨rfl, rfl⟩
    · rw [beq_iff_eq.mp single]
      exact ⟨rfl, rfl⟩
  refine ⟨c, inside ++ [c], rfl, notBlank.1, ?_⟩
  intro behind _
  have closed : (Text.isQuote c && (inside ++ [c] ++ behind).contains c) = true := by
    simp [quote]
  have others : ∀ d ∈ inside, (d != c) = true := by
    intro d listed
    rw [bne_iff_ne]
    rintro rfl
    exact fresh listed
  rw [nextWord, notBlank.2, if_neg Bool.false_ne_true, if_pos closed, List.append_assoc,
    List.takeWhile_append_of_pos others, List.dropWhile_append_of_pos others]
  simp

theorem wordsFrom_standsAlone (alone : StandsAlone word) (ends : EndsWord behind) (start : Nat) :
    wordsFrom start (word ++ behind) =
      (start, word) :: wordsFrom (start + byteSize word) behind := by
  obtain ⟨c, rest, rfl, notBlank, cut⟩ := alone
  rw [List.cons_append, wordsFrom, if_neg (Bool.not_eq_true _ ▸ notBlank), cut behind ends]

theorem wordsFrom_spaced (alone : ∀ word ∈ words, StandsAlone word) (start : Nat) :
    (wordsFrom start (List.intercalate [' '] words)).map Prod.snd = words := by
  induction words generalizing start with
  | nil =>
      rw [List.intercalate_nil, wordsFrom]
      rfl
  | cons word rest ih =>
      obtain ⟨first, others⟩ := List.forall_mem_cons.mp alone
      cases rest with
      | nil =>
          have only := wordsFrom_standsAlone first endsWord_nil start
          rw [List.append_nil, wordsFrom] at only
          rw [List.intercalate_singleton, only]
          rfl
      | cons next more =>
          have blank : Text.isBlank ' ' = true := rfl
          rw [List.intercalate_cons_cons, List.append_assoc, List.singleton_append,
            wordsFrom_standsAlone first endsWord_blank, List.map_cons, wordsFrom, if_pos blank,
            ih others]

end Lexeme

/-- Whether a token is read back from its text. -/
structure Token.IsLegible (schema : Schema) (behindOperator : Bool) (token : Token) : Prop where
  alone : Lexeme.StandsAlone token.text.toList
  read : ∀ place, (Lexeme.ofWord schema (place, token.text.toList)).token? behindOperator =
    some token

theorem plain_name {kind : LexemeKind} (plain : Lexeme.isPlain name.toList = true)
    (kinds : (lexemes schema name).map Lexeme.kind = [kind]) :
    Lexeme.StandsAlone name.toList ∧ Lexeme.classify schema name = kind := by
  have nonempty : name.toList ≠ [] := by
    intro none
    rw [lexemes, none, Lexeme.wordsFrom] at kinds
    cases kinds
  have alone := Lexeme.standsAlone_plain plain nonempty
  have only := Lexeme.wordsFrom_standsAlone alone Lexeme.endsWord_nil 0
  rw [List.append_nil, Lexeme.wordsFrom] at only
  rw [lexemes, only, List.map_singleton, List.map_singleton, Lexeme.ofWord,
    String.ofList_toList] at kinds
  exact ⟨alone, (List.cons.inj kinds).1⟩

theorem Lexeme.operator?_of_classify (kind : classify schema name = .operator) :
    (schema.operator? name).isSome = true := by
  unfold classify at kind
  grind

theorem Lexeme.classify_bracket (half : Bracket) : classify schema half.text = .bracket := by
  cases half <;> rfl

theorem Lexeme.classify_combinator (word : Combinator) :
    classify schema word.text = .combinator := by
  have told : (Bracket.ofText? word.text).isSome = false ∧
      (Text.isQuoted word.text || isDate word.text.toList) = false ∧
      (Combinator.ofText? word.text).isSome = true := by
    cases word <;> decide +kernel
  simp only [classify, told, Bool.false_eq_true, if_false, if_true]

theorem Lexeme.isPlain_combinator (word : Combinator) :
    isPlain word.text.toList = true ∧ word.text.toList ≠ [] := by
  cases word <;> decide +kernel

namespace Token

theorem isLegible_bracket (half : Bracket) (behindOperator : Bool) :
    (bracket half).IsLegible schema behindOperator := by
  refine ⟨Lexeme.standsAlone_bracket half, ?_⟩
  intro place
  cases half <;> cases behindOperator <;> rfl

theorem isLegible_combinator (word : Combinator) :
    (combinator word).IsLegible schema false := by
  obtain ⟨plain, nonempty⟩ := Lexeme.isPlain_combinator word
  have read : Combinator.ofText? word.text = some word := by
    cases word <;> decide +kernel
  refine ⟨Lexeme.standsAlone_plain plain nonempty, ?_⟩
  intro place
  simp only [Lexeme.token?, Lexeme.ofWord, text, String.ofList_toList,
    Lexeme.classify_combinator, read]
  rfl

theorem isLegible_field (plain : Lexeme.isPlain name.toList = true)
    (kinds : (lexemes schema name).map Lexeme.kind = [.field])
    (lowered : Text.lower name = name) : (field name).IsLegible schema false := by
  obtain ⟨alone, kind⟩ := plain_name plain kinds
  refine ⟨alone, ?_⟩
  intro place
  simp [Lexeme.token?, Lexeme.ofWord, text, String.ofList_toList, kind, lowered]

theorem isLegible_operator (plain : Lexeme.isPlain name.toList = true)
    (kinds : (lexemes schema name).map Lexeme.kind = [.operator]) :
    (operator name).IsLegible schema false := by
  obtain ⟨alone, kind⟩ := plain_name plain kinds
  refine ⟨alone, ?_⟩
  intro place
  simp [Lexeme.token?, Lexeme.ofWord, text, String.ofList_toList, kind]

/-- Behind an operator a quoted text is read as the value that it is. -/
theorem isLegible_value {raw : String} {c : Char} {inside : List Char}
    (wrapped : raw.toList = c :: (inside ++ [c])) (quote : Text.isQuote c = true)
    (fresh : c ∉ inside) : (value raw).IsLegible schema true := by
  have quoted : Text.isQuoted raw = true := Text.isQuoted_of_toList wrapped quote
  have notBracket : (Bracket.ofText? raw).isSome = false := by
    rw [Option.isSome_eq_false_iff, Option.isNone_iff_eq_none, Option.eq_none_iff_forall_ne_some]
    intro half found
    have same := congrArg (fun text => text.toList.length) (Bracket.text_of_ofText? found)
    cases half <;> simp [wrapped, Bracket.text] at same
  have kind : Lexeme.classify schema raw = .value := by
    simp [Lexeme.classify, notBracket, quoted]
  refine ⟨?_, ?_⟩
  · rw [text, wrapped]
    exact Lexeme.standsAlone_quoted quote fresh
  · intro place
    simp [Lexeme.token?, Lexeme.ofWord, text, String.ofList_toList, kind,
      Text.quote_of_isQuoted quoted]

end Token

def AllLegible (schema : Schema) (behindOperator : Bool) : List Token → Prop
  | [] => True
  | token :: rest =>
      token.IsLegible schema behindOperator ∧ AllLegible schema token.isOperator rest

theorem AllLegible.standAlone {behindOperator : Bool}
    (legible : AllLegible schema behindOperator tokens) :
    ∀ word ∈ tokens.map fun token => token.text.toList, Lexeme.StandsAlone word := by
  induction tokens generalizing behindOperator with
  | nil => exact nofun
  | cons token rest ih =>
      rw [List.map_cons, List.forall_mem_cons]
      exact ⟨legible.1.alone, ih legible.2⟩

theorem AllLegible.readWords {behindOperator : Bool} {words : List (Nat × List Char)}
    (legible : AllLegible schema behindOperator tokens)
    (written : words.map Prod.snd = tokens.map fun token => token.text.toList) :
    readWords behindOperator (words.map (Lexeme.ofWord schema)) = some tokens := by
  induction tokens generalizing behindOperator words with
  | nil =>
      cases List.map_eq_nil_iff.mp written
      rfl
  | cons token rest ih =>
      obtain ⟨⟨place, word⟩, later, rfl, rfl, laterWritten⟩ := List.map_eq_cons_iff.mp written
      rw [List.map_cons, FilterQuery.readWords, legible.1.read place]
      simp only [ih legible.2 laterWritten, Option.map_some]

/-- Legible tokens with single blanks between them are read back from the text. -/
theorem readTokens_spaced (legible : AllLegible schema false tokens) :
    readTokens schema (" ".intercalate (tokens.map Token.text)) = some tokens := by
  refine legible.readWords ?_
  rw [String.toList_intercalate, List.map_map]
  exact Lexeme.wordsFrom_spaced legible.standAlone 0

end FilterQuery
