import FilterQuery.Proofs.SchemaParts
import FilterQuery.Proofs.Typing

namespace FilterQuery

/-! Queries that are entered token by token can be finished.

The only dead end is a field for which the schema has no operator at all.  Behind any other token
something may be taken, and a few more tokens make a query: what is left of the rule, or a pair of
brackets behind a combinator, and then the closing brackets.
-/

namespace Draft

def takeLast (draft : Draft) (choice : String × TokenType) : Except EditError Draft :=
  draft.resolve (draft.size - 1) choice.1 choice.2

/-- Takes tokens one after the other, each at the slot that is then the last. -/
def takeEach (draft : Draft) (choices : List (String × TokenType)) : Except EditError Draft :=
  choices.foldlM takeLast draft

end Draft

variable {schema : Schema} {document : Json} {draft edited : Draft} {standing : Standing}
  {token : Token} {tokens rest : List Token} {choice : String × TokenType}
  {choices : List (String × TokenType)} {name : String}

theorem Token.isSpelled (token : Token) : IsSpelled token.text token.type := by
  cases token with
  | combinator word => exact isSpelled_combinator
  | field | operator | value | bracket => exact isSpelled_of_ne nofun

namespace IsRow

theorem last_eq (row : IsRow draft tokens) : draft.size - 1 = tokens.length := by
  rw [row.size_eq]
  rfl

theorem takeLast_ok (row : IsRow draft tokens) (taken : draft.takeLast choice = .ok edited) :
    ∃ token, (Standing.start.seeAll tokens).Offers draft.schema token ∧
      edited = draft.extended tokens token := by
  rw [Draft.takeLast, row.last_eq] at taken
  obtain ⟨token, -, offers, same⟩ := row.resolve_ok taken
  exact ⟨token, offers, same⟩

theorem takeLast_named (row : IsRow draft tokens) (named : token.IsNamed)
    (offers : (Standing.start.seeAll tokens).Offers draft.schema token) :
    draft.takeLast (token.text, token.type) = .ok (draft.extended tokens token) := by
  rw [Draft.takeLast, row.last_eq]
  exact (row.resolve_ok_iff token.isSpelled).mpr ⟨token, named, offers, rfl⟩

theorem takeEach_ok (row : IsRow draft tokens) (taken : draft.takeEach choices = .ok edited) :
    edited.schema = draft.schema ∧ ∃ tokens, IsRow edited tokens := by
  induction choices generalizing draft tokens with
  | nil =>
      cases taken
      exact ⟨rfl, tokens, row⟩
  | cons choice rest ih =>
      rw [Draft.takeEach, List.foldlM_cons] at taken
      cases step : draft.takeLast choice with
      | error error =>
          rw [step] at taken
          cases taken
      | ok next =>
          rw [step] at taken
          obtain ⟨token, offers, rfl⟩ := row.takeLast_ok step
          obtain ⟨schema, later⟩ := ih (row.extended offers) taken
          exact ⟨schema, later⟩

/-- Tokens that may be taken one after the other are taken under their names. -/
theorem exists_takeEach (row : IsRow draft tokens) (named : ∀ token ∈ rest, token.IsNamed)
    (typable : (Standing.start.seeAll tokens).Typable draft.schema rest) :
    ∃ edited, draft.takeEach (rest.map fun token => (token.text, token.type)) = .ok edited ∧
      IsRow edited (tokens ++ rest) := by
  induction rest generalizing draft tokens with
  | nil => exact ⟨draft, rfl, (List.append_nil tokens).symm ▸ row⟩
  | cons token rest ih =>
      obtain ⟨own, others⟩ := List.forall_mem_cons.mp named
      obtain ⟨offers, later⟩ := typable
      have ahead : (Standing.start.seeAll (tokens ++ [token])).Typable draft.schema rest := by
        rwa [Standing.seeAll_append]
      obtain ⟨edited, taken, extended⟩ := ih (row.extended offers) others ahead
      rw [List.append_assoc] at extended
      refine ⟨edited, ?_, extended⟩
      rw [List.map_cons, Draft.takeEach, List.foldlM_cons, row.takeLast_named own offers]
      exact taken

end IsRow

/-- Whether the last of some tokens is a field for which a schema has no operator. -/
def IsDeadEnd (schema : Schema) (tokens : List Token) : Prop :=
  ∃ field ∈ schema.fields, tokens.getLast? = some (.field field.name) ∧
    ¬ schema.HasOperatorFor field

instance : Decidable (IsDeadEnd schema tokens) :=
  inferInstanceAs (Decidable (∃ field ∈ schema.fields,
    tokens.getLast? = some (.field field.name) ∧ ¬ schema.HasOperatorFor field))

theorem exists_admits_operator_iff (loaded : Schema.ofJson document = .ok schema)
    {field : Field} (listed : field ∈ schema.fields)
    (last : standing.previous = some (.field field.name)) :
    (∃ name, standing.Admits schema (.operator name)) ↔ schema.HasOperatorFor field := by
  have found := Schema.field?_of_loaded loaded listed
  rw [Schema.hasOperatorFor_iff loaded listed]
  constructor
  · rintro ⟨name, fieldName, other, previous, foundOther, -, declared⟩
    rw [last] at previous
    cases previous
    rw [found] at foundOther
    cases foundOther
    exact List.ne_nil_of_mem declared
  · intro some
    obtain ⟨name, declared⟩ := List.exists_mem_of_ne_nil _ some
    obtain ⟨operator, known, -⟩ := Schema.hasOperator_of_loaded loaded listed declared
    exact ⟨name, field.name, field, last, found, Option.isSome_of_eq_some known, declared⟩

theorem Standing.Admits.type_eq_operator (admits : standing.Admits schema token)
    (last : standing.previous = some (.field name)) : token.type = .operator := by
  cases token with
  | operator other => rfl
  | field other => simp [Admits, last, startsMember] at admits
  | value raw => simp [Admits, last] at admits
  | combinator word => simp [Admits, last, endsMember] at admits
  | bracket half => cases half <;> simp [Admits, last, startsMember, endsMember] at admits

/-- Behind a combinator or an open bracket, and at the start, a group may be opened or closed.  Behind
a member there may be a combinator. -/
theorem Standing.exists_offers (standing : Standing) (nested : standing.previous =
      some (.bracket .opening) → standing.outer ≠ [])
    (goesOn : ∀ name, standing.previous = some (.field name) →
      ∃ operator, standing.Admits schema (.operator operator)) :
    ∃ token, standing.Offers schema token := by
  have opens : startsMember standing.previous = true →
      standing.previous ≠ some (.bracket .opening) → ∃ token, standing.Offers schema token :=
    fun starts unopened => ⟨.bracket .opening, starts, fun _ => unopened⟩
  have joins : endsMember standing.previous = true → ∃ token, standing.Offers schema token := by
    intro ends
    refine ⟨.combinator (standing.combinator.getD .and), ⟨ends, ?_⟩, by simp⟩
    intro first found
    rw [found]
    rfl
  cases previous : standing.previous with
  | none => exact opens (by rw [previous]; rfl) (by simp [previous])
  | some last =>
      cases last with
      | field name =>
          obtain ⟨operator, admits⟩ := goesOn name previous
          exact ⟨.operator operator, admits, by simp⟩
      | operator name => exact ⟨.value emptyValue, ⟨name, previous⟩, by simp⟩
      | value raw => exact joins (by rw [previous]; rfl)
      | combinator word => exact opens (by rw [previous]; rfl) (by simp [previous])
      | bracket half =>
          cases half with
          | opening => exact ⟨.bracket .closing, ⟨.inl previous, nested previous⟩, by simp⟩
          | closing => exact joins (by rw [previous]; rfl)

theorem outer_ne_nil_of_opening (last : (Standing.start.seeAll tokens).previous =
    some (.bracket .opening)) : (Standing.start.seeAll tokens).outer ≠ [] := by
  rw [Standing.start_previous] at last
  obtain ⟨front, rfl⟩ := List.getLast?_eq_some_iff.mp last
  rw [Standing.seeAll_append]
  exact List.cons_ne_nil _ _

theorem isDeadEnd_iff (loaded : Schema.ofJson document = .ok schema)
    (typable : Standing.start.Typable schema tokens) :
    IsDeadEnd schema tokens ↔ ∃ name, tokens.getLast? = some (.field name) ∧
      ¬ ∃ operator, (Standing.start.seeAll tokens).Admits schema (.operator operator) := by
  constructor
  · rintro ⟨field, listed, last, none⟩
    refine ⟨field.name, last, ?_⟩
    rwa [exists_admits_operator_iff loaded listed (Standing.start_previous.trans last)]
  · rintro ⟨name, last, none⟩
    obtain ⟨front, rfl⟩ := List.getLast?_eq_some_iff.mp last
    obtain ⟨-, ⟨⟨-, known⟩, -⟩, -⟩ := Standing.along_append.mp typable
    obtain ⟨field, found⟩ := Option.isSome_iff_exists.mp known
    have listed : field ∈ schema.fields := List.mem_of_find?_eq_some found
    have named := Schema.field?_name found
    subst named
    refine ⟨field, listed, last, ?_⟩
    rwa [← exists_admits_operator_iff loaded listed (Standing.start_previous.trans last)]

theorem exists_offers_iff (loaded : Schema.ofJson document = .ok schema)
    (typable : Standing.start.Typable schema tokens) :
    (∃ token, (Standing.start.seeAll tokens).Offers schema token) ↔ ¬ IsDeadEnd schema tokens := by
  rw [isDeadEnd_iff loaded typable]
  constructor
  · rintro ⟨token, admits, -⟩ ⟨name, last, none⟩
    have isOperator := admits.type_eq_operator (Standing.start_previous.trans last)
    cases token with
    | operator operator => exact none ⟨operator, admits⟩
    | field | value | combinator | bracket => cases isOperator
  · intro goesOn
    refine Standing.exists_offers _ outer_ne_nil_of_opening ?_
    intro name last
    refine Classical.byContradiction fun none => goesOn ⟨name, ?_, none⟩
    rw [← Standing.start_previous, last]

namespace LegalValues

variable {legal : LegalValues}

theorem contains_types_iff {type : TokenType} : legal.types.contains type = true ↔
    ∃ token : Token, token.type = type ∧ legal.allows token = true := by
  constructor
  · intro listed
    cases type with
    | field =>
        obtain ⟨field, among⟩ := List.isEmpty_eq_false_iff_exists_mem.mp (Bool.not_eq_true' _ ▸ listed)
        exact ⟨.field field.name, rfl, List.any_eq_true.mpr ⟨field, among, by simp⟩⟩
    | operator =>
        obtain ⟨operator, among⟩ :=
          List.isEmpty_eq_false_iff_exists_mem.mp (Bool.not_eq_true' _ ▸ listed)
        exact ⟨.operator operator.name, rfl, List.any_eq_true.mpr ⟨operator, among, by simp⟩⟩
    | value => exact ⟨.value emptyValue, rfl, listed⟩
    | combinator =>
        obtain ⟨word, among⟩ := List.isEmpty_eq_false_iff_exists_mem.mp (Bool.not_eq_true' _ ▸ listed)
        exact ⟨.combinator word, rfl, List.contains_iff_mem.mpr among⟩
    | group =>
        obtain ⟨half, among⟩ := List.isEmpty_eq_false_iff_exists_mem.mp (Bool.not_eq_true' _ ▸ listed)
        exact ⟨.bracket half, rfl, List.contains_iff_mem.mpr among⟩
  · rintro ⟨token, rfl, allowed⟩
    cases token with
    | value raw => exact allowed
    | field name | operator name =>
        obtain ⟨_, among, -⟩ := List.any_eq_true.mp allowed
        simp [types, TypeSet.contains, Token.type, List.ne_nil_of_mem among]
    | combinator word =>
        simp [types, TypeSet.contains, Token.type, List.ne_nil_of_mem (List.contains_iff_mem.mp allowed)]
    | bracket half =>
        simp [types, TypeSet.contains, Token.type, List.ne_nil_of_mem (List.contains_iff_mem.mp allowed)]

theorem isEmpty_types_eq_false_iff :
    legal.types.isEmpty = false ↔ ∃ token, legal.allows token = true := by
  rw [TypeSet.isEmpty, List.isEmpty_eq_false_iff_exists_mem]
  simp only [TypeSet.mem_toList, contains_types_iff]
  constructor
  · rintro ⟨_, token, -, allowed⟩
    exact ⟨token, allowed⟩
  · rintro ⟨token, allowed⟩
    exact ⟨token.type, token, rfl, allowed⟩

end LegalValues

namespace IsRow

theorem offers_iff (row : IsRow draft tokens) :
    (∃ token, (LegalValues.between draft.schema tokens []).allows token = true) ↔
      ∃ token, (Standing.start.seeAll tokens).Offers draft.schema token := by
  have viable := row.typable.viable
  refine exists_congr fun token => ?_
  rw [between_allows_iff viable]
  exact ⟨fun allowed => allowed.1, fun offers => ⟨offers, fitsAround_end viable offers⟩⟩

theorem exists_finished (row : IsRow draft tokens)
    (goesOn : ∀ name, tokens.getLast? = some (.field name) → ∃ operator,
      (Standing.start.seeAll tokens).Admits draft.schema (.operator operator)) :
    ∃ further finished, draft.takeEach further = .ok finished ∧ finished.violations = [] := by
  have completes : ∃ rest, (∀ token ∈ rest, token.IsNamed) ∧
      (Standing.start.seeAll tokens).Typable draft.schema rest ∧
      ((Standing.start.seeAll tokens).seeAll rest).Finished := by
    rcases List.eq_nil_or_concat tokens with rfl | ⟨front, token, rfl⟩
    · exact ⟨[], nofun, trivial, .inl rfl, rfl⟩
    · rw [List.concat_eq_append] at row goesOn ⊢
      obtain ⟨-, offers, -⟩ := Standing.along_append.mp row.typable
      rw [Standing.seeAll_append] at goesOn ⊢
      refine offers.finishes ?_
      intro isField
      cases token with
      | operator | value | combinator | bracket => cases isField
      | field name => exact goesOn name List.getLast?_concat
  obtain ⟨rest, named, typable, finished⟩ := completes
  obtain ⟨edited, taken, extended⟩ := row.exists_takeEach named typable
  refine ⟨_, edited, taken, extended.violations_eq_nil_iff.mpr ?_⟩
  rwa [Standing.seeAll_append]

/-- At a dead end nothing more is taken, and the rule stays unfinished. -/
theorem not_finished_of_isDeadEnd (row : IsRow draft tokens)
    (loaded : Schema.ofJson document = .ok draft.schema)
    (deadEnd : IsDeadEnd draft.schema tokens) :
    ¬ ∃ further finished, draft.takeEach further = .ok finished ∧ finished.violations = [] := by
  rintro ⟨further, finished, continued, faultless⟩
  cases further with
  | nil =>
      cases continued
      obtain ⟨field, -, last, -⟩ := deadEnd
      obtain ⟨ends, -⟩ := row.violations_eq_nil_iff.mp faultless
      rw [Standing.start_previous, last] at ends
      rcases ends with nothing | ends
      · cases nothing
      · cases ends
  | cons choice rest =>
      rw [Draft.takeEach, List.foldlM_cons] at continued
      cases step : draft.takeLast choice with
      | error error =>
          rw [step] at continued
          cases continued
      | ok next =>
          obtain ⟨token, offered, -⟩ := row.takeLast_ok step
          exact (exists_offers_iff loaded row.typable).mp ⟨token, offered⟩ deadEnd

end IsRow

namespace Draft

/-- However tokens are taken at the last slot, something may be taken there and the query can be
finished by taking further tokens there, unless the last token is a field for which the schema has no
operator. -/
theorem takeEach_finishes (loaded : Schema.ofJson document = .ok schema)
    (choices : List (String × TokenType))
    (taken : (Draft.new schema).takeEach choices = .ok draft) :
    (∃ legal, draft.legalValues (draft.size - 1) = .ok legal ∧
      (legal.types.isEmpty = false ↔ ¬ IsDeadEnd schema draft.tokens)) ∧
    ((∃ further finished, draft.takeEach further = .ok finished ∧ finished.violations = []) ↔
      ¬ IsDeadEnd schema draft.tokens) := by
  obtain ⟨same, tokens, row⟩ := (isRow_new schema).takeEach_ok taken
  change draft.schema = schema at same
  subst same
  rw [row.tokens_eq]
  refine ⟨⟨_, row.last_eq ▸ row.legalValues_eq, ?_⟩, ?_, ?_⟩
  · rw [LegalValues.isEmpty_types_eq_false_iff, row.offers_iff,
      exists_offers_iff loaded row.typable]
  · intro finishes deadEnd
    exact row.not_finished_of_isDeadEnd loaded deadEnd finishes
  · intro goesOn
    refine row.exists_finished ?_
    intro name last
    refine Classical.byContradiction fun none => ?_
    exact goesOn ((isDeadEnd_iff loaded row.typable).mpr ⟨name, last, none⟩)

/-- A document with a date and no operator to compare it. -/
def dayDocument : Json :=
  .object [
    ("fields", .array [
      .object [("name", .string "note"), ("label", .string "Note"), ("valueKind", .string "text")],
      .object [("name", .string "day"), ("label", .string "Day"), ("valueKind", .string "date")]]),
    ("operators", .array [
      .object [("name", .string "is"), ("label", .string "is"), ("family", .string "text")]])]

def daySchema : Schema :=
  .ofParts [⟨"note", "Note", .text, []⟩, ⟨"day", "Day", .date, []⟩] [⟨"is", "is", .text⟩]

theorem dayDocument_loaded : Schema.ofJson dayDocument = .ok daySchema :=
  Schema.ofJson_of_parts (by decide +kernel) (by decide +kernel) (by decide +kernel)

theorem noteDraft_finishes : Schema.ofJson dayDocument = .ok daySchema ∧
    ∃ draft, (Draft.new daySchema).takeEach [("(", .group), ("note", .field)] = .ok draft ∧
      (∃ legal, draft.legalValues (draft.size - 1) = .ok legal ∧ legal.types.isEmpty = false) ∧
      ∃ further finished, draft.takeEach further = .ok finished ∧ finished.violations = [] := by
  have taken : (Draft.new daySchema).takeEach [("(", .group), ("note", .field)] =
      .ok ⟨daySchema, [.resolved (.bracket .opening), .resolved (.field "note"),
        .fresh TokenType.field.follow]⟩ := rfl
  have goesOn : ¬ IsDeadEnd daySchema [.bracket .opening, .field "note"] := by decide
  obtain ⟨⟨legal, values, types⟩, finishes⟩ := takeEach_finishes dayDocument_loaded _ taken
  exact ⟨dayDocument_loaded, _, taken, ⟨legal, values, types.mpr goesOn⟩, finishes.mpr goesOn⟩

/-- Nothing is legal behind the date, and its rule is never finished. -/
theorem dayDraft_deadEnd : Schema.ofJson dayDocument = .ok daySchema ∧
    ∃ draft, (Draft.new daySchema).takeEach [("day", .field)] = .ok draft ∧
      (∃ legal, draft.legalValues (draft.size - 1) = .ok legal ∧ legal.types.isEmpty = true) ∧
      ¬ ∃ further finished, draft.takeEach further = .ok finished ∧ finished.violations = [] := by
  have taken : (Draft.new daySchema).takeEach [("day", .field)] =
      .ok ⟨daySchema, [.resolved (.field "day"), .fresh TokenType.field.follow]⟩ := rfl
  obtain ⟨-, tokens, row⟩ := (isRow_new daySchema).takeEach_ok taken
  have read : tokens = [.field "day"] := row.tokens_eq.symm
  have deadEnd : IsDeadEnd daySchema [.field "day"] := by decide
  exact ⟨dayDocument_loaded, _, taken, ⟨_, rfl, rfl⟩,
    row.not_finished_of_isDeadEnd dayDocument_loaded (read ▸ deadEnd)⟩

end Draft
end FilterQuery
