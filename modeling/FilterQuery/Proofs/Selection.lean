import FilterQuery.Proofs.Edits
import FilterQuery.Proofs.Exchange
import FilterQuery.Proofs.Unfinished
import FilterQuery.Schema.Basic

namespace FilterQuery

/-! Taking tokens keeps a draft within the grammar.

As long as tokens are only taken and values replaced, a draft is a row of tokens and one pending
slot.  A token that is taken in the pending slot is offered behind the row.  A token that is taken
in place of another one is exchanged between its neighbours.
-/

variable {schema : Schema} {draft edited : Draft} {tokens before rest : List Token}
  {candidates current : TypeSet} {text : String} {token other next : Token}
  {front back behind : List Slot} {slot last : Slot}

def typesBehind (tokens : List Token) : TypeSet :=
  .after (tokens.getLast?.map Token.type)

theorem typesBehind_concat : typesBehind (tokens ++ [token]) = token.type.follow := by
  rw [typesBehind, List.getLast?_concat]
  rfl

theorem typesBehind_exchange (alike : rest = [] → other.type = token.type) :
    typesBehind (before ++ other :: rest) = typesBehind (before ++ token :: rest) := by
  rw [typesBehind, typesBehind, List.getLast?_append, List.getLast?_append, List.getLast?_cons,
    List.getLast?_cons]
  cases last : rest.getLast? with
  | none =>
      have same := alike (List.getLast?_eq_none_iff.mp last)
      exact congrArg (fun type => TypeSet.after (some type)) same
  | some token => rfl

/-- Whether a slot is pending with some candidates, and nothing was typed into it unless it waits
for a value. -/
def Awaits (candidates : TypeSet) (slot : Slot) : Prop :=
  ∃ text, slot = .pending candidates text ∧ (candidates ≠ .valueOnly → text = "")

theorem awaits_fresh : Awaits candidates (.fresh candidates) :=
  ⟨Slot.initialText candidates, rfl, fun notValue => if_neg notValue⟩

theorem Awaits.reseed (awaits : Awaits current slot) :
    Awaits candidates (slot.reseed candidates) := by
  obtain ⟨text, rfl, untyped⟩ := awaits
  simp only [Slot.reseed]
  split
  next same =>
    refine ⟨text, rfl, ?_⟩
    intro notValue
    apply untyped
    intro waited
    subst waited
    rw [beq_self_eq_true, beq_iff_eq] at same
    exact notValue (beq_iff_eq.mp same.symm)
  next => exact awaits_fresh

theorem Awaits.resolvedTokens (awaits : Awaits candidates last) :
    resolvedTokens (tokens.map .resolved ++ [last]) = tokens := by
  obtain ⟨text, rfl, -⟩ := awaits
  rw [resolvedTokens_append, resolvedTokens_map]
  exact List.append_nil tokens

/-- Whether a draft is a row of tokens, each of them offered behind those before it, and a pending
slot for what may follow. -/
structure IsRow (draft : Draft) (tokens : List Token) : Prop where
  slots : ∃ last, Awaits (typesBehind tokens) last ∧ draft.slots = tokens.map .resolved ++ [last]
  typable : Standing.start.Typable draft.schema tokens

theorem IsRow.tokens_eq (row : IsRow draft tokens) : draft.tokens = tokens := by
  obtain ⟨last, awaits, slots⟩ := row.slots
  rw [Draft.tokens, slots, awaits.resolvedTokens]

theorem IsRow.size_eq (row : IsRow draft tokens) : draft.size = tokens.length + 1 := by
  obtain ⟨⟨last, -, slots⟩, -⟩ := row
  rw [Draft.size, slots, List.length_append, List.length_map]
  rfl

theorem isRow_new (schema : Schema) : IsRow (.new schema) [] :=
  ⟨⟨_, awaits_fresh, rfl⟩, Standing.along_nil⟩

/-- Every slot of a row is the pending one at its end or holds one of the tokens. -/
theorem split_row (split : tokens.map .resolved ++ [last] = front ++ slot :: back) :
    (front = tokens.map .resolved ∧ slot = last ∧ back = []) ∨
      ∃ before token after, tokens = before ++ token :: after ∧ front = before.map .resolved ∧
        slot = .resolved token ∧ back = after.map .resolved ++ [last] := by
  induction tokens generalizing front with
  | nil =>
      cases front with
      | nil =>
          cases split
          exact .inl ⟨rfl, rfl, rfl⟩
      | cons first front =>
          have tooLong := (List.cons.inj split).2
          cases front <;> cases tooLong
  | cons token rest ih =>
      cases front with
      | nil =>
          cases split
          exact .inr ⟨[], token, rest, rfl, rfl, rfl, rfl⟩
      | cons first front =>
          obtain ⟨rfl, later⟩ := List.cons.inj split
          rcases ih later with ⟨rfl, rfl, rfl⟩ | ⟨before, found, after, rfl, rfl, rfl, rfl⟩
          · exact .inl ⟨rfl, rfl, rfl⟩
          · exact .inr ⟨token :: before, found, after, rfl, rfl, rfl, rfl⟩

theorem isRow_concat (typable : Standing.start.Typable schema tokens)
    (legal : (LegalValues.between schema tokens []).allows token = true)
    (awaits : Awaits token.type.follow last) :
    IsRow ⟨schema, tokens.map .resolved ++ [.resolved token, last]⟩ (tokens ++ [token]) := by
  have offered := ((between_allows_iff typable.viable).mp legal).1
  refine ⟨⟨last, typesBehind_concat.symm ▸ awaits, ?_⟩, ?_⟩
  · rw [List.map_append, List.append_assoc]
    rfl
  · exact Standing.along_append.mpr ⟨typable, offered, Standing.along_nil⟩

theorem isRow_exchange (awaits : Awaits (typesBehind (before ++ token :: rest)) last)
    (alike : rest = [] → other.type = token.type)
    (typable : Standing.start.Typable schema (before ++ other :: rest)) :
    IsRow ⟨schema, before.map .resolved ++ .resolved other :: (rest.map .resolved ++ [last])⟩
      (before ++ other :: rest) := by
  refine ⟨⟨last, (typesBehind_exchange alike).symm ▸ awaits, ?_⟩, typable⟩
  rw [List.map_append, List.append_assoc]
  rfl

/-- In front of another token a legal one may be put in place of that of the row. -/
theorem typable_exchange
    (typable : Standing.start.Typable schema (before ++ token :: next :: rest))
    (legal : (LegalValues.between schema before (next :: rest)).allows other = true)
    (allowed : (LegalValues.between schema (before ++ [other]) rest).allows next = true) :
    Standing.start.Typable schema (before ++ other :: next :: rest) := by
  obtain ⟨first, second⟩ := Standing.along_append.mp typable
  have viable : Standing.start.Viable schema before := Standing.Typable.viable first
  obtain ⟨offered, fits⟩ := (between_allows_iff viable).mp legal
  have ahead : Standing.start.Viable schema (before ++ [other]) :=
    Standing.viable_append.mpr ⟨viable, offered.1, Standing.along_nil⟩
  have follows := ((between_allows_iff ahead).mp allowed).1
  rw [Standing.seeAll_append] at follows
  refine Standing.along_append.mpr ⟨first, Standing.Typable.exchange second offered follows ?_⟩
  intro found same
  subst same
  exact fits

theorem IsRow.takes (row : IsRow draft tokens) (split : draft.slots = front ++ slot :: back)
    (legal : (LegalValues.of draft.schema (candidatesBehind front slot)
      (.between (resolvedTokens front) (resolvedTokens back))).allows token = true)
    (refits : refit draft.schema (resolvedTokens front) token slot.isPending back = some behind) :
    ∃ tokens, IsRow ⟨draft.schema, front ++ .resolved token :: behind⟩ tokens := by
  obtain ⟨⟨last, awaits, slots⟩, typable⟩ := row
  rw [slots] at split
  rcases split_row split with ⟨rfl, rfl, rfl⟩ | ⟨before, old, after, rfl, rfl, rfl, rfl⟩
  · -- The pending slot is filled and another one is appended.
    obtain ⟨text, rfl, -⟩ := awaits
    cases refits
    rw [resolvedTokens_map] at legal
    exact ⟨_, isRow_concat typable legal awaits_fresh⟩
  · rw [Draft.of_candidatesBehind_resolved, resolvedTokens_map, awaits.resolvedTokens] at legal
    rw [resolvedTokens_map] at refits
    cases after with
    | nil =>
        -- The last token is exchanged and the pending slot gets other candidates.
        have front : Standing.start.Typable draft.schema before :=
          (Standing.along_append.mp typable).1
        have reseeded : Awaits token.type.follow (last.reseed token.type.follow) := awaits.reseed
        obtain ⟨text, rfl, -⟩ := awaits
        cases refits
        exact ⟨_, isRow_concat front legal reseeded⟩
    | cons next rest =>
        rw [List.map_cons, List.cons_append, refit, awaits.resolvedTokens] at refits
        split at refits
        next fit =>
          -- The token behind was checked again, and nothing but it.
          cases refits
          have allowed : (LegalValues.between draft.schema (before ++ [token]) rest).allows next =
              true := (Bool.and_eq_true _ _ ▸ fit).2
          have follows : ¬ next :: rest = [] := List.cons_ne_nil next rest
          exact ⟨_, isRow_exchange awaits (fun nothing => absurd nothing follows)
            (typable_exchange typable legal allowed)⟩
        next => cases refits

theorem IsRow.rewords (row : IsRow draft tokens) (split : draft.slots = front ++ slot :: back)
    (isValue : slot.isValueSlot = true) :
    ∃ tokens, IsRow ⟨draft.schema, front ++ Draft.withText text slot :: back⟩ tokens := by
  obtain ⟨⟨last, awaits, slots⟩, typable⟩ := row
  rw [slots] at split
  rcases split_row split with ⟨rfl, rfl, rfl⟩ | ⟨before, old, after, rfl, rfl, rfl, rfl⟩
  · obtain ⟨_, rfl, -⟩ := awaits
    refine ⟨tokens, ⟨.pending (typesBehind tokens) text, ⟨text, rfl, ?_⟩, rfl⟩, typable⟩
    intro notValue
    exact absurd (beq_iff_eq.mp isValue) notValue
  · cases old with
    | field | operator | combinator | bracket => cases isValue
    | value raw =>
        obtain ⟨first, second⟩ := Standing.along_append.mp typable
        have reworded : Standing.start.Typable draft.schema (before ++ .value text :: after) :=
          Standing.along_append.mpr ⟨first, Standing.Typable.reword second⟩
        exact ⟨_, isRow_exchange awaits (fun _ => rfl) reworded⟩

/-- Every edit that takes a token or replaces a value leaves a row. -/
theorem IsRow.perform {edit : Edit} (row : IsRow draft tokens) (selects : edit.selects = true)
    (performed : draft.perform edit = .ok edited) : ∃ tokens, IsRow edited tokens := by
  cases Draft.performs performed with
  | takes taken split legal refits => exact row.takes split legal refits
  | rewords split isValue quoted => exact row.rewords split isValue
  | groups split fits => cases selects
  | removes split unprotected => cases selects

theorem Run.isRow {history : List (Draft × Edit)} (run : Run Edit.selects schema history draft) :
    ∃ tokens, IsRow draft tokens := by
  induction run with
  | start => exact ⟨[], isRow_new schema⟩
  | next run may performed ih =>
      obtain ⟨tokens, row⟩ := ih
      exact row.perform may performed

/-- However tokens are taken and values replaced, in whatever order and at whatever slots, a draft
consists of tokens and one pending slot for what may follow the last of them, and nothing is
reported but what is still to come, at most one unfinished rule among it. -/
theorem Run.selection_closed {history : List (Draft × Edit)}
    (run : Run Edit.selects schema history draft) :
    draft.schema = schema ∧ ∃ tokens text,
      draft.slots = tokens.map .resolved ++
        [.pending (.after (tokens.getLast?.map Token.type)) text] ∧
      (∀ violation ∈ draft.violations, Unfinished tokens violation) ∧
      draft.violations.countP Violation.isIncompleteRule ≤ 1 := by
  obtain ⟨tokens, ⟨last, ⟨text, rfl, untyped⟩, slots⟩, typable⟩ := run.isRow
  refine ⟨run.schema_eq, tokens, text, slots, ?_⟩
  rw [Draft.violations, slots]
  exact validate_unfinished untyped (Standing.Typable.viable typable)

def selectedDraft : Draft :=
  ⟨.builtin,
    [.resolved (.field "text"), .resolved (.operator "contains"), .resolved (.value "\"a\""),
      .resolved (.combinator .or), .resolved (.bracket .opening), .resolved (.field "classifier"),
      .fresh TokenType.field.follow]⟩

theorem selectedDraft_closed : ∃ history, Run Edit.selects .builtin history selectedDraft ∧
    selectedDraft.schema = .builtin ∧ ∃ tokens text,
      selectedDraft.slots = tokens.map .resolved ++
        [.pending (.after (tokens.getLast?.map Token.type)) text] ∧
      (∀ violation ∈ selectedDraft.violations, Unfinished tokens violation) ∧
      selectedDraft.violations.countP Violation.isIncompleteRule ≤ 1 := by
  have edits : [Edit.resolve 0 "text" .field, .resolve 1 "contains" .operator,
      .editValue 2 "\"a\"", .commitValue 2, .resolve 3 "AND" .combinator, .resolve 4 "(" .group,
      .resolve 3 "OR" .combinator, .resolve 5 "created_date" .field,
      .resolve 5 "classifier" .field].foldlM Draft.perform (.new .builtin) =
        .ok selectedDraft := rfl
  have new : Run Edit.selects .builtin [] (.new .builtin) := .start
  obtain ⟨history, run⟩ := new.of_foldlM (by decide) edits
  exact ⟨_, run, run.selection_closed⟩

end FilterQuery
