import FilterQuery.Proofs.SessionSafety
import FilterQuery.Proofs.Typing

namespace FilterQuery

variable {schema : Schema} {draft edited typed : Draft} {tokens : List Token} {token : Token}
  {lexeme : Lexeme} {words : List Lexeme} {text : String}

/-- What a user does to enter a word at a slot with some candidates. -/
def Lexeme.intent? (candidates : TypeSet) (lexeme : Lexeme) : Option Intent :=
  if candidates == .valueOnly then some (.commitValue lexeme.text)
  else
    match lexeme.kind with
    | .combinator => some (.select lexeme.text.toUpper .combinator)
    | .field => some (.select (Text.lower lexeme.text) .field)
    | .operator => some (.select lexeme.text .operator)
    | .bracket => some (.select lexeme.text .group)
    | .value | .invalid => none

/-- The session in which a word has been entered, unless no intent enters it or the intent is
refused. -/
def Session.enter (session : Session) (lexeme : Lexeme) : Option Session := do
  let candidates ← (session.draft.candidateTypes session.focus).toOption
  let intent ← lexeme.intent? candidates
  (session.apply intent).toOption

theorem Combinator.toUpper_of_ofText? {word : Combinator} (found : ofText? text = some word) :
    text.toUpper = word.text := by
  have matching := List.find?_some found
  rw [beq_iff_eq] at matching
  apply String.toList_injective
  rw [matching, String.toUpper, String.toList_map]

namespace IsRow

/-- A row in which a value has been put into the pending slot, but not taken. -/
def reworded (draft : Draft) (tokens : List Token) (text : String) : Draft :=
  ⟨draft.schema, tokens.map .resolved ++ [.pending .valueOnly (Text.quote text)]⟩

theorem editValue_eq (row : IsRow draft tokens) (waits : typesBehind tokens = .valueOnly) :
    draft.editValue tokens.length (Text.quote text) = .ok (reworded draft tokens text) := by
  obtain ⟨⟨last, ⟨before, rfl, -⟩, slots⟩, -⟩ := row
  have found := Draft.slot_eq slots
  rw [List.length_map] at found
  have changed : draft.slots.modify tokens.length (Draft.withText (Text.quote text)) =
      tokens.map .resolved ++ [.pending .valueOnly (Text.quote text)] := by
    have length : (tokens.map Slot.resolved).length = tokens.length := List.length_map _
    rw [slots, ← length, modify_length_append, waits]
    rfl
  simp only [Draft.editValue, found, Slot.isValueSlot, waits, Text.isQuoted_quote, changed]
  rfl

theorem isRow_reworded (row : IsRow draft tokens) (waits : typesBehind tokens = .valueOnly) :
    IsRow (reworded draft tokens text) tokens :=
  ⟨⟨_, ⟨Text.quote text, by rw [waits], fun other => absurd waits other⟩, rfl⟩, row.typable⟩

/-- A value that is put into the slot and then committed is taken as it is when it is typed. -/
theorem apply_commitValue (row : IsRow draft tokens) (waits : typesBehind tokens = .valueOnly)
    (offers : (Standing.start.seeAll tokens).Offers draft.schema (.value (Text.quote text))) :
    (Session.mk draft tokens.length).apply (.commitValue text) =
      .ok ⟨draft.extended tokens (.value (Text.quote text)), tokens.length + 1⟩ := by
  have slots : (reworded draft tokens text).slot tokens.length =
      .ok (.pending .valueOnly (Text.quote text)) := by
    have found := @Draft.slot_eq (reworded draft tokens text) _ [] _ rfl
    rwa [List.length_map] at found
  have taken : (reworded draft tokens text).resolve tokens.length (Text.quote text) .value =
      .ok (draft.extended tokens (.value (Text.quote text))) := by
    have spelled : IsSpelled (Text.quote text) .value := isSpelled_of_ne nofun
    refine ((row.isRow_reworded waits).resolve_ok_iff spelled).mpr
      ⟨.value (Text.quote text), ?_, offers, rfl⟩
    rw [Token.ofName?, Text.quote_quote]
  simp only [Session.apply, row.editValue_eq waits, Draft.commitValue, slots, Slot.text, taken]
  rfl

theorem apply_select {name : String} {type : TokenType} (row : IsRow draft tokens)
    (spelled : IsSpelled name type) (named : Token.ofName? type name = some token)
    (offers : (Standing.start.seeAll tokens).Offers draft.schema token) :
    (Session.mk draft tokens.length).apply (.select name type) =
      .ok ⟨draft.extended tokens token, tokens.length + 1⟩ := by
  have taken := (row.resolve_ok_iff spelled).mpr ⟨token, named, offers, rfl⟩
  rw [Session.apply, Session.take, taken]
  rfl

/-- The intent for a word that may go where it stands takes the token of the word. -/
theorem intent_takes (row : IsRow draft tokens)
    (named : lexeme.token? (tokens.getLast?.any Token.isOperator) = some token)
    (offers : (Standing.start.seeAll tokens).Offers draft.schema token) :
    ∃ intent, lexeme.intent? (typesBehind tokens) = some intent ∧
      (Session.mk draft tokens.length).apply intent =
        .ok ⟨draft.extended tokens token, tokens.length + 1⟩ := by
  have isValue := isValue_iff_behindOperator offers
  unfold Lexeme.intent?
  by_cases behind : tokens.getLast?.any Token.isOperator = true
  · -- The token is a value, since no bracket is offered behind an operator.
    have waits : typesBehind tokens = .valueOnly :=
      beq_iff_eq.mp (typesBehind_eq_valueOnly.trans behind)
    obtain rfl := (Lexeme.eq_of_token? named).resolve_right
      fun other => other.1 (isValue.mpr behind)
    exact ⟨_, if_pos (beq_iff_eq.mpr waits), row.apply_commitValue waits offers⟩
  · rw [typesBehind_eq_valueOnly, if_neg behind]
    rw [Bool.not_eq_true] at behind
    unfold Lexeme.token? at named
    rw [behind] at named isValue
    simp only [Bool.false_and, Bool.false_eq_true, if_false, iff_false] at named isValue
    cases kind : lexeme.kind with
    | bracket =>
        rw [kind] at named
        exact ⟨_, rfl, row.apply_select (isSpelled_of_ne nofun) named offers⟩
    | field =>
        rw [kind] at named
        exact ⟨_, rfl, row.apply_select (isSpelled_of_ne nofun) named offers⟩
    | operator =>
        rw [kind] at named
        exact ⟨_, rfl, row.apply_select (isSpelled_of_ne nofun) named offers⟩
    | combinator =>
        rw [kind] at named
        obtain ⟨word, found, rfl⟩ := Option.map_eq_some_iff.mp named
        refine ⟨_, rfl, ?_⟩
        rw [Combinator.toUpper_of_ofText? found]
        have written : Token.ofName? .combinator word.text = some (.combinator word) :=
          @Token.ofName?_text (.combinator word) nofun
        exact row.apply_select isSpelled_combinator written offers
    | value =>
        -- A quoted text elsewhere is no intent, but neither is it offered.
        rw [kind] at named
        cases named
        exact absurd rfl isValue
    | invalid =>
        rw [kind] at named
        cases named

/-- A word that is taken at the end of a row is entered by a session that has the focus there. -/
theorem session_enter (row : IsRow draft tokens)
    (taken : QueryText.enter draft tokens.length lexeme = .ok edited) :
    (Session.mk draft tokens.length).enter lexeme = some ⟨edited, tokens.length + 1⟩ := by
  obtain ⟨token, named, offers, rfl⟩ := row.enter_ok_iff.mp taken
  obtain ⟨intent, intended, applied⟩ := row.intent_takes named offers
  simp only [Session.enter, row.candidateTypes_eq, Except.toOption, Option.bind_eq_bind,
    Option.bind_some, intended, applied]

theorem session_enterAll (row : IsRow draft tokens)
    (entered : QueryText.enterAll draft tokens.length words = .ok typed) :
    words.foldlM Session.enter (Session.mk draft tokens.length) =
      some ⟨typed, tokens.length + words.length⟩ := by
  induction words generalizing draft tokens with
  | nil =>
      cases entered
      rfl
  | cons lexeme rest ih =>
      unfold QueryText.enterAll at entered
      split at entered
      next edited taken =>
        obtain ⟨token, -, offers, rfl⟩ := row.enter_ok_iff.mp taken
        have length : tokens.length + 1 = (tokens ++ [token]).length := by simp
        rw [List.foldlM_cons, row.session_enter taken, Option.bind_eq_bind, Option.bind_some]
        rw [length] at entered ⊢
        rw [ih (row.extended offers) entered, ← length, List.length_cons, Nat.add_assoc,
          Nat.add_comm 1]
      next => cases entered

end IsRow

namespace QueryText

theorem ruleGroup_of_draft (entered : QueryText.draft schema text = .ok typed) :
    (∃ group, typed.ruleGroup = .ok group ∧ QueryText.ruleGroup schema text = .ok group) ∨
      ∃ violations, typed.ruleGroup = .error (.invalid violations) ∧
        QueryText.ruleGroup schema text = .error (.edit (.invalid violations)) := by
  unfold QueryText.ruleGroup Draft.ruleGroup
  rw [entered]
  cases faults : typed.violations with
  | nil => exact .inl ⟨_, rfl, by simp [faults]⟩
  | cons first rest => exact .inr ⟨_, rfl, by simp [faults]⟩

/-- If the words of a text can be typed, they can be entered one by one in a new session.  No intent
is refused, the focus ends on the last slot, and the session has the draft of the text.  It finishes
with the query that the text is, or with what keeps the text from being one. -/
theorem session_enters (schema : Schema) (text : String)
    (entered : QueryText.draft schema text = .ok typed) :
    ∃ session, (lexemes schema text).foldlM Session.enter (.new schema) = some session ∧
      session.draft = typed ∧ session.focus + 1 = session.draft.size ∧
      ((∃ group, session.finish = .ok group ∧ QueryText.ruleGroup schema text = .ok group) ∨
        ∃ violations, session.finish = .error (.invalid violations) ∧
          QueryText.ruleGroup schema text = .error (.edit (.invalid violations))) := by
  obtain ⟨tokens, reads, -, row⟩ := isRow_of_draft entered
  have done := (isRow_new schema).session_enterAll entered
  refine ⟨_, done, rfl, ?_, ruleGroup_of_draft entered⟩
  simp only [row.size_eq, List.length_nil, Nat.zero_add, length_readWords reads]

theorem builtin_session_enters :
    (∃ typed, QueryText.draft .builtin "(Text in \"it's) And classifier in ')'" = .ok typed) ∧
    ∃ session, (lexemes .builtin "(Text in \"it's) And classifier in ')'").foldlM Session.enter
        (.new .builtin) = some session ∧
      session.draft.tokens = [.bracket .opening, .field "text", .operator "in",
        .value "\"\"it's\"", .bracket .closing, .combinator .and, .field "classifier",
        .operator "in", .value "')'"] ∧
      session.focus + 1 = session.draft.size ∧
      ∃ group, session.finish = .ok group ∧
        QueryText.ruleGroup .builtin "(Text in \"it's) And classifier in ')'" = .ok group := by
  have words : lexemes .builtin "(Text in \"it's) And classifier in ')'" =
      [⟨"(", 0, 1, .bracket⟩, ⟨"Text", 1, 5, .field⟩, ⟨"in", 6, 8, .operator⟩,
        ⟨"\"it's", 9, 14, .invalid⟩, ⟨")", 14, 15, .bracket⟩, ⟨"And", 16, 19, .combinator⟩,
        ⟨"classifier", 20, 30, .field⟩, ⟨"in", 31, 33, .operator⟩, ⟨"')'", 34, 37, .value⟩] := by
    decide +kernel
  have entered : ∃ typed,
      QueryText.draft .builtin "(Text in \"it's) And classifier in ')'" = .ok typed := by
    rw [QueryText.draft, words]
    exact ⟨_, rfl⟩
  obtain ⟨typed, entered⟩ := entered
  obtain ⟨tokens, reads, -, row⟩ := isRow_of_draft entered
  have read : tokens = [.bracket .opening, .field "text", .operator "in",
      .value "\"\"it's\"", .bracket .closing, .combinator .and, .field "classifier",
      .operator "in", .value "')'"] := by
    rw [readTokens, words] at reads
    exact Option.some.inj (reads.symm.trans (by decide +kernel))
  have faultless : typed.violations = [] := by
    rw [row.violations_eq_nil_iff, read]
    exact ⟨.inr rfl, rfl⟩
  obtain ⟨session, done, rfl, last, finish⟩ := session_enters .builtin _ entered
  refine ⟨⟨_, entered⟩, session, done, row.tokens_eq.trans read, last, ?_⟩
  rcases finish with query | ⟨violations, failed, -⟩
  · exact query
  · rw [Session.finish, Draft.ruleGroup, faultless] at failed
    cases failed

end QueryText
end FilterQuery
