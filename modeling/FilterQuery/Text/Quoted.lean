namespace FilterQuery.Text

def isQuote (c : Char) : Bool :=
  c == '"' || c == '\''

/-- Whether the characters start and end with the same quote and have one at each end. -/
def isQuotedChars : List Char → Bool
  | first :: second :: rest => isQuote first && (second :: rest).getLast? == some first
  | _ => false

def isQuoted (text : String) : Bool :=
  isQuotedChars text.toList

/-- The text between double quotes, unless it already stands between quotes. -/
def quote (text : String) : String :=
  if isQuoted text then text else "\"" ++ text ++ "\""

theorem isQuotedChars_cons_concat {c : Char} (isQuote : isQuote c = true) (inside : List Char) :
    isQuotedChars (c :: (inside ++ [c])) = true := by
  have last : (inside ++ [c]).getLast? = some c := List.getLast?_concat
  cases inside with
  | nil => simp [isQuotedChars, isQuote]
  | cons first rest =>
      rw [List.cons_append] at last ⊢
      rw [isQuotedChars, isQuote, last, beq_self_eq_true]
      rfl

theorem isQuoted_of_toList {text : String} {c : Char} {inside : List Char}
    (chars : text.toList = c :: (inside ++ [c])) (isQuote : isQuote c = true) :
    isQuoted text = true := by
  rw [isQuoted, chars]
  exact isQuotedChars_cons_concat isQuote inside

theorem quote_of_isQuoted {text : String} (quoted : isQuoted text = true) : quote text = text :=
  if_pos quoted

@[simp] theorem isQuoted_quote (text : String) : isQuoted (quote text) = true := by
  unfold quote
  split
  next quoted => exact quoted
  next =>
    have characters : ("\"" ++ text ++ "\"").toList = '"' :: (text.toList ++ ['"']) := by
      simp
    exact isQuoted_of_toList characters rfl

@[simp] theorem quote_quote (text : String) : quote (quote text) = quote text :=
  quote_of_isQuoted (isQuoted_quote text)

/-- The text without its quotes.  A text that does not stand between quotes is left alone. -/
def unquote (text : String) : String :=
  if isQuoted text then String.ofList text.toList.tail.dropLast else text

/-- Whether a text is another one with the same quote put before and behind it. -/
def Encloses (text inside : String) : Prop :=
  ∃ quote, isQuote quote = true ∧ text.toList = quote :: (inside.toList ++ [quote])

theorem isQuoted_iff {text : String} : isQuoted text = true ↔ ∃ inside, Encloses text inside := by
  constructor
  · intro quoted
    unfold isQuoted at quoted
    match chars : text.toList, quoted with
    | first :: second :: rest, quoted =>
        obtain ⟨isQuote, last⟩ := Bool.and_eq_true_iff.mp quoted
        obtain ⟨inside, between⟩ := List.getLast?_eq_some_iff.mp (beq_iff_eq.mp last)
        refine ⟨String.ofList inside, first, isQuote, ?_⟩
        rw [chars, between, String.toList_ofList]
  · rintro ⟨inside, quote, isQuote, chars⟩
    exact isQuoted_of_toList chars isQuote

theorem unquote_of_encloses {text inside : String} (encloses : Encloses text inside) :
    unquote text = inside := by
  have quoted : isQuoted text = true := isQuoted_iff.mpr ⟨inside, encloses⟩
  obtain ⟨quote, -, chars⟩ := encloses
  rw [unquote, if_pos quoted, chars, List.tail_cons, List.dropLast_concat, String.ofList_toList]

theorem Encloses.unique {text inside other : String} (encloses : Encloses text inside)
    (enclosesOther : Encloses text other) : inside = other :=
  (unquote_of_encloses encloses).symm.trans (unquote_of_encloses enclosesOther)

theorem Encloses.ne_empty {text inside : String} (encloses : Encloses text inside) :
    text ≠ "" := by
  rintro rfl
  obtain ⟨quote, -, chars⟩ := encloses
  cases chars

theorem encloses_empty_iff {text : String} :
    Encloses text "" ↔ text = "\"\"" ∨ text = "''" := by
  constructor
  · rintro ⟨quote, isQuote, chars⟩
    rcases Bool.or_eq_true_iff.mp isQuote with double | single
    · cases beq_iff_eq.mp double
      exact .inl (String.toList_injective chars)
    · cases beq_iff_eq.mp single
      exact .inr (String.toList_injective chars)
  · rintro (rfl | rfl)
    · exact ⟨'"', rfl, rfl⟩
    · exact ⟨'\'', rfl, rfl⟩

end FilterQuery.Text
