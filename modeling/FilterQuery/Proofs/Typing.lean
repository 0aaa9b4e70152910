import FilterQuery.Proofs.Selection
import FilterQuery.Proofs.TypedGrammar
import FilterQuery.Proofs.Words
import FilterQuery.QueryText

namespace FilterQuery

variable {schema : Schema} {draft edited typed : Draft} {tokens read : List Token} {token : Token}
  {lexeme : Lexeme} {words front back : List Lexeme} {candidates : TypeSet} {legal : LegalValues}
  {index : Nat} {name text : String} {type : TokenType} {error : TextError}

def Token.isOperator : Token → Bool
  | .operator _ => true
  | _ => false

/-- The token that a word stands for, told by the word alone.  But directly behind an operator every
word other than a bracket is a value. -/
def Lexeme.token? (behindOperator : Bool) (lexeme : Lexeme) : Option Token :=
  if behindOperator && lexeme.kind != .bracket then some (.value (Text.quote lexeme.text))
  else
    match lexeme.kind with
    | .bracket => (Bracket.ofText? lexeme.text).map .bracket
    | .field => some (.field (Text.lower lexeme.text))
    | .operator => some (.operator lexeme.text)
    | .combinator => (Combinator.ofText? lexeme.text).map .combinator
    | .value => some (.value (Text.quote lexeme.text))
    | .invalid => none

/-- The kind of the words that tokens of a type are taken from. -/
def TokenType.lexemeKind : TokenType → LexemeKind
  | .field => .field
  | .operator => .operator
  | .value => .value
  | .combinator => .combinator
  | .group => .bracket

/-- A word stands for a value, or for a token of the type that its kind tells. -/
theorem Lexeme.eq_of_token? {behindOperator : Bool}
    (named : lexeme.token? behindOperator = some token) :
    token = .value (Text.quote lexeme.text) ∨
      token.type ≠ .value ∧ lexeme.kind = token.type.lexemeKind ∧
        (token.type = .operator → lexeme.text = token.text) := by
  unfold token? at named
  split at named
  next => exact .inl (Option.some.inj named).symm
  next =>
    cases kind : lexeme.kind with
    | value =>
        rw [kind] at named
        exact .inl (Option.some.inj named).symm
    | field =>
        rw [kind] at named
        cases named
        exact .inr ⟨nofun, rfl, nofun⟩
    | operator =>
        rw [kind] at named
        cases named
        exact .inr ⟨nofun, rfl, fun _ => rfl⟩
    | bracket | combinator =>
        rw [kind] at named
        obtain ⟨_, _, rfl⟩ := Option.map_eq_some_iff.mp named
        exact .inr ⟨nofun, rfl, nofun⟩
    | invalid =>
        rw [kind] at named
        cases named

/-- The tokens that words stand for, unless one of them stands for none. -/
def readWords (behindOperator : Bool) : List Lexeme → Option (List Token)
  | [] => some []
  | lexeme :: rest =>
      match lexeme.token? behindOperator with
      | some token => (readWords token.isOperator rest).map (token :: ·)
      | none => none

theorem length_readWords {behindOperator : Bool} (reads : readWords behindOperator words = some read) :
    read.length = words.length := by
  induction words generalizing behindOperator read with
  | nil =>
      cases reads
      rfl
  | cons lexeme rest ih =>
      unfold readWords at reads
      split at reads
      next token named =>
        obtain ⟨later, laterReads, rfl⟩ := Option.map_eq_some_iff.mp reads
        exact congrArg Nat.succ (ih laterReads)
      next => cases reads

def readTokens (schema : Schema) (text : String) : Option (List Token) :=
  readWords false (lexemes schema text)

/-- Whether a name is that of the token it stands for.  Any text will do for a value. -/
def IsSpelled (name : String) (type : TokenType) : Prop :=
  ∀ token, Token.ofName? type name = some token → type ≠ .value → token.text = name

theorem isSpelled_of_ne (other : type ≠ .combinator) : IsSpelled name type := by
  intro token named notValue
  cases type with
  | field | operator =>
      cases named
      rfl
  | value => exact absurd rfl notValue
  | combinator => exact absurd rfl other
  | group =>
      obtain ⟨half, found, rfl⟩ := Option.map_eq_some_iff.mp named
      exact Bracket.text_of_ofText? found

theorem isSpelled_combinator {word : Combinator} : IsSpelled word.text .combinator := by
  intro token named _
  cases word <;> cases named <;> rfl

/-- A word is selected as the token that it stands for. -/
theorem selection_reads : lexeme.token? (candidates == .valueOnly) =
    (QueryText.selection? candidates lexeme).bind fun chosen =>
      Token.ofName? chosen.2 chosen.1 := by
  unfold QueryText.selection? Lexeme.token?
  split
  · rfl
  · cases lexeme.kind with
    | bracket | field | operator | value | invalid => rfl
    | combinator =>
        cases Combinator.ofText? lexeme.text with
        | none => rfl
        | some word => cases word <;> rfl

theorem selection_spelled (selected : QueryText.selection? candidates lexeme = some (name, type)) :
    IsSpelled name type := by
  unfold QueryText.selection? at selected
  split at selected
  next =>
    cases selected
    exact isSpelled_of_ne nofun
  next =>
    cases kind : lexeme.kind with
    | bracket | field | operator | value =>
        rw [kind] at selected
        cases selected
        exact isSpelled_of_ne nofun
    | combinator =>
        rw [kind] at selected
        obtain ⟨word, _, same⟩ := Option.map_eq_some_iff.mp selected
        cases same
        exact isSpelled_combinator
    | invalid =>
        rw [kind] at selected
        cases selected

theorem typesBehind_eq_valueOnly :
    (typesBehind tokens == .valueOnly) = tokens.getLast?.any Token.isOperator := by
  unfold typesBehind
  rcases tokens.getLast? with _ | (_ | _ | _ | _ | _) <;> rfl

/-- A value may come next exactly behind an operator. -/
theorem Standing.Admits.isValue_iff {standing : Standing} (admits : standing.Admits schema token) :
    token.type = .value ↔ ∃ name, standing.previous = some (.operator name) := by
  have notStart : ∀ name, startsMember (some (.operator name)) ≠ true := fun _ => nofun
  have notEnd : ∀ name, endsMember (some (.operator name)) ≠ true := fun _ => nofun
  cases token with
  | value raw => exact iff_of_true rfl admits
  | field =>
      refine iff_of_false nofun ?_
      rintro ⟨name, nearest⟩
      exact notStart name (nearest ▸ admits.1)
  | operator =>
      refine iff_of_false nofun ?_
      rintro ⟨name, nearest⟩
      obtain ⟨fieldName, field, behindField, -⟩ := admits
      cases nearest.symm.trans behindField
  | combinator =>
      refine iff_of_false nofun ?_
      rintro ⟨name, nearest⟩
      exact notEnd name (nearest ▸ admits.1)
  | bracket half =>
      refine iff_of_false nofun ?_
      rintro ⟨name, nearest⟩
      rcases admits.between with starts | ends
      · exact notStart name (nearest ▸ starts)
      · exact notEnd name (nearest ▸ ends)

theorem isValue_iff_behindOperator
    (offers : (Standing.start.seeAll tokens).Offers schema token) :
    token.type = .value ↔ tokens.getLast?.any Token.isOperator = true := by
  rw [offers.1.isValue_iff, Standing.seeAll_previous]
  rcases tokens.getLast? with _ | (_ | _ | _ | _ | _) <;>
    simp [Token.isOperator, Standing.start]

/-- A name that is spelled out chooses the token it stands for exactly where that is legal. -/
theorem Draft.choose_ok_iff (values : draft.legalValues index = .ok legal)
    (spelled : IsSpelled name type) :
    draft.choose index name type = .ok token ↔
      Token.ofName? type name = some token ∧ legal.allows token = true := by
  rw [Draft.choose_ok_iff_isCalled values]
  refine and_congr_left' ⟨Token.IsCalled.named, ?_⟩
  intro named
  unfold Token.IsCalled
  split
  next isValue =>
    subst isValue
    exact (Option.some.inj named).symm
  next notValue => exact ⟨Token.type_of_ofName? named, spelled token named notValue⟩

/-- A row with one more token. -/
def Draft.extended (draft : Draft) (tokens : List Token) (token : Token) : Draft :=
  ⟨draft.schema, tokens.map .resolved ++ [.resolved token, .fresh token.type.follow]⟩

namespace IsRow

theorem candidateTypes_eq (row : IsRow draft tokens) :
    draft.candidateTypes tokens.length = .ok (typesBehind tokens) := by
  obtain ⟨⟨last, ⟨text, rfl, -⟩, slots⟩, -⟩ := row
  have found := Draft.slot_eq slots
  rw [List.length_map] at found
  rw [Draft.candidateTypes, found]
  rfl

theorem legalValues_eq (row : IsRow draft tokens) :
    draft.legalValues tokens.length = .ok (.between draft.schema tokens []) := by
  obtain ⟨⟨last, ⟨text, rfl, -⟩, slots⟩, -⟩ := row
  have values := Draft.legalValues_eq slots
  rwa [List.length_map, resolvedTokens_map] at values

theorem place_eq (row : IsRow draft tokens) :
    draft.place tokens.length token = some (draft.extended tokens token) := by
  obtain ⟨⟨last, _, slots⟩, -⟩ := row
  have placed := @Draft.place_eq _ _ _ _ token slots
  rwa [List.length_map] at placed

theorem extended (row : IsRow draft tokens)
    (offers : (Standing.start.seeAll tokens).Offers draft.schema token) :
    IsRow (draft.extended tokens token) (tokens ++ [token]) :=
  isRow_concat row.typable ((between_allows_iff row.typable.viable).mpr
    ⟨offers, fitsAround_end row.typable.viable offers⟩) awaits_fresh

/-- Only what is offered behind a row is taken at its end. -/
theorem resolve_ok (row : IsRow draft tokens)
    (taken : draft.resolve tokens.length name type = .ok edited) :
    ∃ token, Token.ofName? type name = some token ∧
      (Standing.start.seeAll tokens).Offers draft.schema token ∧
      edited = draft.extended tokens token := by
  unfold Draft.resolve at taken
  split at taken
  next => cases taken
  next token chosen =>
    obtain ⟨legal, values, allowed, named⟩ := Draft.choose_ok chosen
    rw [row.legalValues_eq] at values
    cases values
    rw [row.place_eq] at taken
    cases taken
    exact ⟨token, named, ((between_allows_iff row.typable.viable).mp allowed).1, rfl⟩

theorem resolve_ok_iff (row : IsRow draft tokens) (spelled : IsSpelled name type) :
    draft.resolve tokens.length name type = .ok edited ↔
      ∃ token, Token.ofName? type name = some token ∧
        (Standing.start.seeAll tokens).Offers draft.schema token ∧
        edited = draft.extended tokens token := by
  refine ⟨row.resolve_ok, ?_⟩
  rintro ⟨token, named, offers, rfl⟩
  have viable := row.typable.viable
  have allowed := (between_allows_iff viable).mpr ⟨offers, fitsAround_end viable offers⟩
  have chosen := (Draft.choose_ok_iff row.legalValues_eq spelled).mpr ⟨named, allowed⟩
  rw [Draft.resolve, chosen]
  simp only [row.place_eq]

theorem enter_ok_iff (row : IsRow draft tokens) :
    QueryText.enter draft tokens.length lexeme = .ok edited ↔
      ∃ token, lexeme.token? (tokens.getLast?.any Token.isOperator) = some token ∧
        (Standing.start.seeAll tokens).Offers draft.schema token ∧
        edited = draft.extended tokens token := by
  rw [← typesBehind_eq_valueOnly]
  simp only [QueryText.enter, row.candidateTypes_eq]
  rw [selection_reads]
  cases selected : QueryText.selection? (typesBehind tokens) lexeme with
  | none => simp
  | some chosen =>
      obtain ⟨name, type⟩ := chosen
      have spelled := selection_spelled selected
      rw [Option.bind_some, ← row.resolve_ok_iff spelled]
      simp only
      split <;> simp [*]

theorem enter_error (row : IsRow draft tokens)
    (refused : QueryText.enter draft tokens.length lexeme = .error error) :
    error = QueryText.unexpected draft tokens.length lexeme := by
  simp only [QueryText.enter, row.candidateTypes_eq] at refused
  split at refused
  next =>
    cases refused
    rfl
  next =>
    split at refused
    next => cases refused
    next =>
      cases refused
      rfl

theorem violations_eq_nil_iff (row : IsRow draft tokens) :
    draft.violations = [] ↔ (Standing.start.seeAll tokens).Finished := by
  obtain ⟨⟨last, awaits, slots⟩, typable⟩ := row
  have read : resolvedTokens draft.slots = tokens := by rw [slots, awaits.resolvedTokens]
  have untyped : ∀ slot ∈ draft.slots, Inspection.Untyped slot := by
    rw [slots, List.forall_mem_append, List.forall_mem_map, List.forall_mem_singleton]
    refine ⟨fun _ _ => nofun, ?_⟩
    obtain ⟨text, rfl, untyped⟩ := awaits
    intro _ notValue
    exact untyped (by simpa [Slot.isValueSlot] using notValue)
  rw [Draft.violations, validate_eq_nil_iff_viable, read]
  exact ⟨fun faultless => faultless.2.2, fun finished => ⟨untyped, typable.viable, finished⟩⟩

theorem enterAll_ok (row : IsRow draft tokens)
    (entered : QueryText.enterAll draft tokens.length words = .ok typed) :
    ∃ read, readWords (tokens.getLast?.any Token.isOperator) words = some read ∧
      typed.schema = draft.schema ∧ IsRow typed (tokens ++ read) := by
  induction words generalizing draft tokens with
  | nil =>
      cases entered
      exact ⟨[], rfl, rfl, (List.append_nil tokens).symm ▸ row⟩
  | cons lexeme rest ih =>
      unfold QueryText.enterAll at entered
      split at entered
      next edited taken =>
        obtain ⟨token, named, offers, rfl⟩ := row.enter_ok_iff.mp taken
        have length : tokens.length + 1 = (tokens ++ [token]).length := by simp
        rw [length] at entered
        obtain ⟨read, later, schema, extended⟩ := ih (row.extended offers) entered
        rw [List.getLast?_concat, Option.any_some] at later
        rw [List.append_assoc] at extended
        refine ⟨token :: read, ?_, schema, extended⟩
        simp only [readWords, named, later, Option.map_some]
      next => cases entered

theorem enterAll_of_typable (row : IsRow draft tokens)
    (reads : readWords (tokens.getLast?.any Token.isOperator) words = some read)
    (typable : (Standing.start.seeAll tokens).Typable draft.schema read) :
    ∃ typed, QueryText.enterAll draft tokens.length words = .ok typed := by
  induction words generalizing draft tokens read with
  | nil => exact ⟨draft, rfl⟩
  | cons lexeme rest ih =>
      unfold readWords at reads
      split at reads
      next token named =>
        obtain ⟨later, laterReads, rfl⟩ := Option.map_eq_some_iff.mp reads
        obtain ⟨offers, laterTypable⟩ := typable
        have taken := row.enter_ok_iff.mpr ⟨token, named, offers, rfl⟩
        have length : tokens.length + 1 = (tokens ++ [token]).length := by simp
        have ahead : (Standing.start.seeAll (tokens ++ [token])).Typable draft.schema later := by
          rwa [Standing.seeAll_append]
        have readsAhead : readWords ((tokens ++ [token]).getLast?.any Token.isOperator) rest =
            some later := by
          rwa [List.getLast?_concat]
        obtain ⟨typed, entered⟩ := ih (row.extended offers) readsAhead ahead
        refine ⟨typed, ?_⟩
        simp only [QueryText.enterAll, taken, length, entered]
      next => cases reads

end IsRow

theorem QueryText.enterAll_append : enterAll draft index (front ++ back) =
    match enterAll draft index front with
    | .ok edited => enterAll edited (index + front.length) back
    | .error error => .error error := by
  induction front generalizing draft index with
  | nil => rfl
  | cons lexeme rest ih =>
      rw [List.cons_append, enterAll, enterAll]
      cases enter draft index lexeme with
      | error error => rfl
      | ok edited =>
          simp only [ih, List.length_cons]
          rw [Nat.add_right_comm, Nat.add_assoc]

/-- If words are not taken, there is a first one that is refused. -/
theorem QueryText.enterAll_error (refused : enterAll draft index words = .error error) :
    ∃ front lexeme back edited, words = front ++ lexeme :: back ∧
      enterAll draft index front = .ok edited ∧
      enter edited (index + front.length) lexeme = .error error := by
  induction words generalizing draft index with
  | nil => cases refused
  | cons lexeme rest ih =>
      unfold enterAll at refused
      split at refused
      next edited taken =>
        obtain ⟨front, wrong, back, before, rfl, entered, stops⟩ := ih refused
        refine ⟨lexeme :: front, wrong, back, before, rfl, ?_, ?_⟩
        · simp only [enterAll, taken, entered]
        · rwa [List.length_cons, ← Nat.add_assoc, Nat.add_right_comm]
      next taken =>
        cases refused
        exact ⟨[], lexeme, rest, draft, rfl, rfl, taken⟩

namespace QueryText

theorem isRow_of_draft (entered : QueryText.draft schema text = .ok typed) :
    ∃ tokens, readTokens schema text = some tokens ∧ typed.schema = schema ∧ IsRow typed tokens :=
  (isRow_new schema).enterAll_ok entered

/-- A text is typed into a draft exactly if its tokens may be taken one after the other. -/
theorem draft_ok_iff : (∃ typed, QueryText.draft schema text = .ok typed) ↔
    ∃ tokens, readTokens schema text = some tokens ∧ Standing.start.Typable schema tokens := by
  constructor
  · intro accepted
    obtain ⟨typed, entered⟩ := accepted
    obtain ⟨tokens, reads, rfl, row⟩ := isRow_of_draft entered
    exact ⟨tokens, reads, row.typable⟩
  · intro typable
    obtain ⟨tokens, reads, typable⟩ := typable
    exact (isRow_new schema).enterAll_of_typable reads typable

theorem ruleGroup_ok_iff_faultless : (∃ group, QueryText.ruleGroup schema text = .ok group) ↔
    ∃ typed, QueryText.draft schema text = .ok typed ∧ typed.violations = [] := by
  unfold QueryText.ruleGroup Draft.ruleGroup
  cases QueryText.draft schema text with
  | error error => simp
  | ok typed => cases faults : typed.violations <;> simp [faults]

theorem ruleGroup_of_tokens (reads : readTokens schema text = some tokens)
    (query : IsTypedQuery schema tokens) :
    QueryText.ruleGroup schema text = .ok (.ofTokens tokens) := by
  obtain ⟨typable, finished⟩ := typable_finished_iff.mpr query
  obtain ⟨typed, entered⟩ := draft_ok_iff.mpr ⟨tokens, reads, typable⟩
  obtain ⟨again, readsAgain, -, row⟩ := isRow_of_draft entered
  cases reads.symm.trans readsAgain
  have faultless : typed.violations = [] := row.violations_eq_nil_iff.mpr finished
  simp only [QueryText.ruleGroup, entered, Draft.ruleGroup, faultless, row.tokens_eq]

theorem ruleGroup_ok_iff : (∃ group, QueryText.ruleGroup schema text = .ok group) ↔
    ∃ tokens, readTokens schema text = some tokens ∧ IsTypedQuery schema tokens := by
  constructor
  · intro accepted
    obtain ⟨typed, entered, faultless⟩ := ruleGroup_ok_iff_faultless.mp accepted
    obtain ⟨tokens, reads, rfl, row⟩ := isRow_of_draft entered
    exact ⟨tokens, reads,
      typable_finished_iff.mp ⟨row.typable, row.violations_eq_nil_iff.mp faultless⟩⟩
  · intro query
    obtain ⟨tokens, reads, query⟩ := query
    exact ⟨_, ruleGroup_of_tokens reads query⟩

theorem draft_append {before word : String} {front : List Lexeme} {lexeme : Lexeme}
    (cutBefore : lexemes schema before = front)
    (cutBehind : lexemes schema (before ++ word) = front ++ [lexeme])
    (entered : QueryText.draft schema before = .ok typed) :
    QueryText.draft schema (before ++ word) = enter typed front.length lexeme := by
  unfold QueryText.draft at entered ⊢
  rw [cutBefore] at entered
  rw [cutBehind, enterAll_append, entered]
  simp only [enterAll, Nat.zero_add]
  split <;> simp [*]

/-- The first word that is refused is reported with its place. -/
theorem draft_error (refused : QueryText.draft schema text = .error error) :
    ∃ before word after expected hint, text = before ++ word ++ after ∧
      error = .unexpectedToken before.utf8ByteSize word expected hint ∧
      (∃ typed, QueryText.draft schema before = .ok typed) ∧
      QueryText.draft schema (before ++ word) = .error error := by
  obtain ⟨front, lexeme, back, typed, words, entered, stops⟩ := enterAll_error refused
  obtain ⟨before, after, split, place, cutBefore, cutBehind⟩ := lexemes_cut words
  have accepted : QueryText.draft schema before = .ok typed := by
    rw [QueryText.draft, cutBefore, entered]
  obtain ⟨tokens, reads, -, row⟩ := isRow_of_draft accepted
  rw [readTokens, cutBefore] at reads
  rw [Nat.zero_add] at stops
  have reported : ∃ expected hint,
      error = .unexpectedToken before.utf8ByteSize lexeme.text expected hint := by
    rw [← place]
    rw [← length_readWords reads] at stops
    exact ⟨_, _, row.enter_error stops⟩
  obtain ⟨expected, hint, reported⟩ := reported
  refine ⟨before, lexeme.text, after, expected, hint, split, reported, ⟨typed, accepted⟩, ?_⟩
  rw [draft_append cutBefore cutBehind accepted, stops]

/-- A text is a query exactly if the tokens of its words are a typed query, and it becomes a draft
exactly if they begin one.  Otherwise the first word that cannot go where it stands is reported: the
text before it becomes a draft, and the text up to its end is refused in the same way. -/
theorem recognizes (schema : Schema) (text : String) :
    ((∃ group, QueryText.ruleGroup schema text = .ok group) ↔
      ∃ tokens, readTokens schema text = some tokens ∧ IsTypedQuery schema tokens) ∧
    (schema.IsUsable →
      ((∃ typed, QueryText.draft schema text = .ok typed) ↔
        ∃ tokens rest, readTokens schema text = some tokens ∧
          IsTypedQuery schema (tokens ++ rest))) ∧
    ∀ error, QueryText.draft schema text = .error error →
      ∃ before word after expected hint, text = before ++ word ++ after ∧
        error = .unexpectedToken before.utf8ByteSize word expected hint ∧
        (∃ typed, QueryText.draft schema before = .ok typed) ∧
        QueryText.draft schema (before ++ word) = .error error := by
  refine ⟨ruleGroup_ok_iff, ?_, fun _ => draft_error⟩
  intro usable
  rw [draft_ok_iff]
  apply exists_congr
  intro tokens
  rw [typable_iff_startsTypedQuery usable, exists_and_left]

theorem builtin_recognizes : Schema.builtin.IsUsable ∧
    (∃ tokens rest, readTokens .builtin "(text" = some tokens ∧
      IsTypedQuery .builtin (tokens ++ rest)) ∧
    ∃ error, QueryText.draft .builtin "(text and" = .error error ∧
      ∃ before word after expected hint, "(text and" = before ++ word ++ after ∧
        error = .unexpectedToken before.utf8ByteSize word expected hint ∧
        (∃ typed, QueryText.draft .builtin before = .ok typed) ∧
        QueryText.draft .builtin (before ++ word) = .error error := by
  have usable : Schema.builtin.IsUsable := by decide
  have opened : lexemes .builtin "(text" =
      [⟨"(", 0, 1, .bracket⟩, ⟨"text", 1, 5, .field⟩] := by decide +kernel
  have joined : lexemes .builtin "(text and" =
      [⟨"(", 0, 1, .bracket⟩, ⟨"text", 1, 5, .field⟩, ⟨"and", 6, 9, .combinator⟩] := by
    decide +kernel
  have entered : ∃ typed, QueryText.draft .builtin "(text" = .ok typed := by
    rw [QueryText.draft, opened]
    exact ⟨_, rfl⟩
  have refused : ∃ error, QueryText.draft .builtin "(text and" = .error error := by
    rw [QueryText.draft, joined]
    exact ⟨_, rfl⟩
  obtain ⟨error, refused⟩ := refused
  exact ⟨usable, ((recognizes .builtin "(text").2.1 usable).mp entered, error, refused,
    (recognizes .builtin "(text and").2.2 error refused⟩

end QueryText
end FilterQuery
