import FilterQuery.Proofs.Finishing
import FilterQuery.Proofs.Neighbours
import FilterQuery.Proofs.OfferedTokens

namespace FilterQuery

/-! The types that a suggestion announces for the next slot, and those that are legal there once it
has been taken.

The announcement looks at the next slot as it is.  Taking the suggestion may open a slot in front of
it instead, and the token that was in the next slot then stands behind that one.  This matters for
closing brackets only, which are legal as long as the other slots leave a bracket unclosed.
-/

variable {schema : Schema} {draft : Draft} {before after other rest : List Token}
  {token next : Token} {front back : List Slot} {index : Nat} {half : Bracket}

theorem TypeSet.ext_contains {set other : TypeSet}
    (same : ∀ type, set.contains type = true ↔ other.contains type = true) : set = other := by
  have field := same .field
  have operator := same .operator
  have value := same .value
  have combinator := same .combinator
  have group := same .group
  cases set
  cases other
  simp only [contains, Bool.coe_iff_coe] at field operator value combinator group
  simp only [field, operator, value, combinator, group]

namespace LegalValues

theorem types_inter (candidates : TypeSet) (context : SlotContext) :
    (LegalValues.of schema candidates context).types.inter candidates =
      (LegalValues.of schema candidates context).types := by
  apply TypeSet.ext_contains
  intro type
  rw [TypeSet.contains_inter, Bool.and_eq_true, and_iff_left_iff_imp, contains_types_iff]
  rintro ⟨token, rfl, allowed⟩
  exact contains_of_allows allowed

/-- What stands behind a place bears on the types that are legal there only through the closing
bracket. -/
theorem contains_types_of_closing {type : TokenType}
    (closes : type = .group → (between schema before after).allows (.bracket .closing) = true →
      (between schema before other).allows (.bracket .closing) = true)
    (listed : (between schema before after).types.contains type = true) :
    (between schema before other).types.contains type = true := by
  obtain ⟨token, rfl, allowed⟩ := contains_types_iff.mp listed
  rw [contains_types_iff]
  cases token with
  | field name => exact ⟨.field name, rfl, between_field_iff.mpr (between_field_iff.mp allowed)⟩
  | operator name =>
      exact ⟨.operator name, rfl, between_operator_iff.mpr (between_operator_iff.mp allowed)⟩
  | value raw => exact ⟨.value raw, rfl, between_value_iff.mpr (between_value_iff.mp allowed)⟩
  | combinator found =>
      -- The combinator itself may be another one, but there is always one that agrees.
      obtain ⟨ends, -⟩ := between_combinator_iff.mp allowed
      let scope := (ScopeStack.start.seeAll before).top.combinator.or (combinatorAhead 0 other)
      have agrees : ∀ first ∈ scope, first = scope.getD .and := by
        intro first isFirst
        rw [Option.mem_def.mp isFirst, Option.getD_some]
      exact ⟨.combinator (scope.getD .and), rfl, between_combinator_iff.mpr ⟨ends, agrees⟩⟩
  | bracket half =>
      cases half with
      | opening =>
          exact ⟨.bracket .opening, rfl,
            between_opening_iff.mpr (between_opening_iff.mp allowed)⟩
      | closing => exact ⟨.bracket .closing, rfl, closes rfl allowed⟩

theorem closing_behind_bracket_iff (last : before.getLast? = some (.bracket half)) :
    (between schema before after).allows (.bracket .closing) = true ↔
      0 < balance before ∧ 0 < balance before + balance after := by
  rw [between_closing_iff, last]
  cases half <;> simp [endsMember]

theorem not_opening_behind_bracket (last : before.getLast? = some (.bracket half)) :
    ¬ (between schema before after).allows (.bracket .opening) = true := by
  intro allowed
  obtain ⟨starts, unopened⟩ := between_opening_iff.mp allowed
  rw [last] at starts unopened
  cases half with
  | opening => exact unopened rfl
  | closing => cases starts

theorem contains_types_group_iff (last : before.getLast? = some (.bracket half)) :
    (between schema before after).types.contains .group = true ↔
      0 < balance before ∧ 0 < balance before + balance after := by
  rw [← @closing_behind_bracket_iff schema before after half last, contains_types_iff]
  constructor
  · rintro ⟨token, isGroup, allowed⟩
    cases token with
    | field | operator | value | combinator => cases isGroup
    | bracket found =>
        cases found with
        | closing => exact allowed
        | opening => exact absurd allowed (not_opening_behind_bracket last)
  · exact fun allowed => ⟨_, rfl, allowed⟩

end LegalValues

/-- Whether a bracket hides that a group may end behind it if it is put in front of an opening
bracket: one is open there, and all tokens but the opening bracket leave none unclosed. -/
def Hides (before rest : List Token) (token next : Token) : Prop :=
  token.type = .group ∧ next = .bracket .opening ∧ 0 < balance (before ++ [token]) ∧
    balance (before ++ [token]) + balance rest = 0

/-- Whether the bracket that an entry names does so if it is taken in front of the next slot. -/
def Draft.HidesClosing (draft : Draft) (index : Nat) (entry : Suggestion) : Prop :=
  ∃ token next, Token.ofName? entry.type entry.name = some token ∧
    draft.slots[index + 1]? = some (.resolved next) ∧
    Hides (resolvedTokens (draft.slots.take index)) (resolvedTokens (draft.slots.drop (index + 2)))
      token next

/-- Behind a token that is neither a bracket nor a value no group ends, whatever comes then. -/
theorem types_behind_other (notBracket : token.type ≠ .group) (notValue : token.type ≠ .value) :
    (LegalValues.between schema (before ++ [token]) after).types =
      (LegalValues.between schema (before ++ [token]) other).types := by
  have unended : ∀ after, ¬ (LegalValues.between schema (before ++ [token]) after).allows
      (.bracket .closing) = true := by
    intro after allowed
    have ends := (LegalValues.between_closing_iff.mp allowed).1
    rw [List.getLast?_concat] at ends
    cases token with
    | field | operator | combinator => simp [endsMember] at ends
    | value => exact notValue rfl
    | bracket => exact notBracket rfl
  apply TypeSet.ext_contains
  intro type
  constructor <;> apply LegalValues.contains_types_of_closing <;>
    exact fun _ allowed => absurd allowed (unended _)

theorem weight_pos_iff : 0 < next.weight ↔ next = .bracket .opening := by
  rcases next with _ | _ | _ | _ | (_ | _) <;> simp [Token.weight]

/-- A closing bracket that cannot stay where it is cannot be taken in front of itself either. -/
theorem closed_of_unfit
    (unfit : ¬ (LegalValues.between schema (before ++ [.bracket half]) rest).allows next = true)
    (closes : next.weight < 0) : ¬ (0 < balance (before ++ [.bracket half]) ∧
      0 < balance (before ++ [.bracket half]) + balance rest) := by
  intro nested
  rcases next with _ | _ | _ | _ | (_ | _) <;> simp [Token.weight] at closes
  exact unfit ((LegalValues.closing_behind_bracket_iff List.getLast?_concat).mpr nested)

theorem weight_le_one : next.weight ≤ 1 := by
  rcases next with _ | _ | _ | _ | (_ | _) <;> simp [Token.weight]

/-- In front of a token that cannot stay behind it, a bracket opens the types that are legal in the
place of the token, and brackets as well if it hides them there. -/
theorem types_behind_bracket
    (unfit : ¬ (LegalValues.between schema (before ++ [.bracket half]) rest).allows next = true) :
    (¬ Hides before rest (.bracket half) next →
      (LegalValues.between schema (before ++ [.bracket half]) (next :: rest)).types =
        (LegalValues.between schema (before ++ [.bracket half]) rest).types) ∧
    (Hides before rest (.bracket half) next →
      (LegalValues.between schema (before ++ [.bracket half]) rest).types.contains .group = false ∧
      (LegalValues.between schema (before ++ [.bracket half]) (next :: rest)).types =
        (LegalValues.between schema (before ++ [.bracket half]) rest).types.insert .group) := by
  have last : (before ++ [Token.bracket half]).getLast? = some (.bracket half) :=
    List.getLast?_concat
  have inPlace := @LegalValues.contains_types_group_iff schema _ rest half last
  have inFront := @LegalValues.contains_types_group_iff schema _ (next :: rest) half last
  rw [balance] at inFront
  have others : ∀ type, type ≠ .group →
      ((LegalValues.between schema (before ++ [.bracket half]) (next :: rest)).types.contains type =
          true ↔
        (LegalValues.between schema (before ++ [.bracket half]) rest).types.contains type =
          true) := by
    intro type notGroup
    constructor <;> apply LegalValues.contains_types_of_closing <;>
      exact fun isGroup => absurd isGroup notGroup
  constructor
  · intro shown
    have closed := closed_of_unfit unfit
    have few := @weight_le_one next
    have opens := @weight_pos_iff next
    have isBracket : (Token.bracket half).type = .group := rfl
    rw [Hides, and_iff_right isBracket, ← opens] at shown
    apply TypeSet.ext_contains
    intro type
    by_cases isGroup : type = .group
    · subst isGroup
      rw [inPlace, inFront]
      omega
    · exact others type isGroup
  · rintro ⟨-, rfl, nested, level⟩
    constructor
    · rw [← Bool.not_eq_true, inPlace]
      omega
    · apply TypeSet.ext_contains
      intro type
      rw [TypeSet.contains_insert, Bool.or_eq_true, beq_iff_eq]
      by_cases isGroup : type = .group
      · subst isGroup
        have one : (Token.bracket .opening).weight = 1 := rfl
        refine iff_of_true ?_ (.inl rfl)
        rw [inFront, one]
        omega
      · rw [others type isGroup, or_iff_right isGroup]

theorem types_behind (notValue : token.type ≠ .value)
    (unfit : ¬ (LegalValues.between schema (before ++ [token]) rest).allows next = true) :
    (¬ Hides before rest token next →
      (LegalValues.between schema (before ++ [token]) (next :: rest)).types =
        (LegalValues.between schema (before ++ [token]) rest).types) ∧
    (Hides before rest token next →
      (LegalValues.between schema (before ++ [token]) rest).types.contains .group = false ∧
      (LegalValues.between schema (before ++ [token]) (next :: rest)).types =
        (LegalValues.between schema (before ++ [token]) rest).types.insert .group) := by
  cases token with
  | bracket half => exact types_behind_bracket unfit
  | value raw => exact absurd rfl notValue
  | field | operator | combinator =>
      exact ⟨fun _ => types_behind_other nofun nofun, fun hides => nomatch hides.1⟩

namespace Draft

theorem of_follow : LegalValues.of schema token.type.follow
    (.between (before ++ [token]) after) = .between schema (before ++ [token]) after := by
  rw [LegalValues.between, List.getLast?_concat]
  rfl

theorem typesOpenedBy_eq {slot : Slot} (split : draft.slots = front ++ slot :: back) :
    draft.typesOpenedBy front.length token = (LegalValues.between draft.schema
      (resolvedTokens front ++ [token]) (resolvedTokens back.tail)).types := by
  have around : SlotContext.around (front ++ .resolved token :: back) (front.length + 1) =
      .between (resolvedTokens front ++ [token]) (resolvedTokens back.tail) := by
    have length : front.length + 1 = (front ++ [Slot.resolved token]).length := by
      rw [List.length_append]
      rfl
    rw [List.append_cons, length, SlotContext.around, List.take_left, ← List.drop_drop,
      List.drop_left, List.drop_one, resolvedTokens_append]
    rfl
  rw [typesOpenedBy, split, set_length_append, around, ← of_follow]
  exact LegalValues.types_inter _ _

/-- The slot behind a token that was taken in a pending slot can hold what is legal between that
token and those behind the slot, among them the next token if a slot was opened in front of it. -/
theorem legalValues_behind {behind : List Slot}
    (refits : refit schema (resolvedTokens front) token true back = some behind) :
    ∃ after, (⟨schema, front ++ .resolved token :: behind⟩ : Draft).legalValues (front.length + 1) =
        .ok (.between schema (resolvedTokens front ++ [token]) after) ∧
      ((after = resolvedTokens back.tail ∧ ∀ next rest, back = .resolved next :: rest →
          (LegalValues.between schema (resolvedTokens front ++ [token])
            (resolvedTokens rest)).allows next = true) ∨
        ∃ next rest, back = .resolved next :: rest ∧ after = next :: resolvedTokens rest ∧
          ¬ (LegalValues.between schema (resolvedTokens front ++ [token])
            (resolvedTokens rest)).allows next = true) := by
  have values : ∀ slot rest, behind = slot :: rest →
      candidatesBehind (front ++ [.resolved token]) slot = token.type.follow →
      (⟨schema, front ++ .resolved token :: behind⟩ : Draft).legalValues (front.length + 1) =
        .ok (.between schema (resolvedTokens front ++ [token]) (resolvedTokens rest)) := by
    rintro slot rest rfl candidates
    have split : front ++ .resolved token :: slot :: rest =
        (front ++ [.resolved token]) ++ slot :: rest := List.append_cons _ _ _
    have found := @legalValues_eq ⟨schema, _⟩ _ _ slot split
    rw [List.length_append, candidates, resolvedTokens_append] at found
    exact found.trans (congrArg Except.ok of_follow)
  unfold refit at refits
  split at refits
  next =>
    cases refits
    exact ⟨_, values _ _ rfl rfl, .inl ⟨rfl, nofun⟩⟩
  next candidates text rest =>
    cases refits
    obtain ⟨typed, reseeded⟩ := Slot.reseed_pending token.type.follow candidates text
    exact ⟨_, values _ _ rfl (by rw [reseeded]; rfl), .inl ⟨rfl, nofun⟩⟩
  next next rest =>
    split at refits
    next fits =>
      cases refits
      have candidates : candidatesBehind (front ++ [.resolved token]) (.resolved next) =
          token.type.follow := by
        rw [candidatesBehind, typesAfter, resolvedTokens_append]
        exact congrArg (fun last => TypeSet.after (last.map Token.type)) List.getLast?_concat
      refine ⟨_, values _ _ rfl candidates, .inl ⟨rfl, ?_⟩⟩
      rintro _ _ ⟨⟩
      exact (Bool.and_eq_true_iff.mp fits).2
    next unfit =>
      cases refits
      refine ⟨_, values _ _ rfl rfl, .inr ⟨next, rest, rfl, rfl, ?_⟩⟩
      intro allowed
      exact unfit (Bool.and_eq_true_iff.mpr ⟨LegalValues.follows_of_allows allowed, allowed⟩)

theorem hidesClosing_iff {slot : Slot} {label : String}
    (split : draft.slots = front ++ slot :: back) (notValue : token.type ≠ .value) :
    draft.HidesClosing front.length (draft.suggestion front.length (token, label)) ↔
      ∃ next rest, back = .resolved next :: rest ∧
        Hides (resolvedTokens front) (resolvedTokens rest) token next := by
  have named : Token.ofName? token.type token.text = some token := Token.ofName?_text notValue
  have inFront : draft.slots.take front.length = front := by
    rw [split, List.take_left]
  have next : draft.slots[front.length + 1]? = back[0]? := by
    rw [split, List.getElem?_append_right (Nat.le_add_right _ 1), Nat.add_sub_cancel_left,
      List.getElem?_cons_succ]
  have behind : draft.slots.drop (front.length + 2) = back.tail := by
    rw [split, ← List.drop_drop, List.drop_left, List.drop_succ_cons, List.drop_one]
  simp only [HidesClosing, suggestion, named, inFront, next, behind, Option.some.injEq,
    exists_and_left, exists_eq_left']
  cases back with
  | nil => simp
  | cons first rest => simp

/-- The types that are legal behind a token that was taken in a pending slot, against those that are
legal in the place of the next slot. -/
theorem types_of_refit {behind : List Slot}
    (refits : refit schema (resolvedTokens front) token true back = some behind)
    (notValue : token.type ≠ .value) :
    ∃ legal, (⟨schema, front ++ .resolved token :: behind⟩ : Draft).legalValues
        (front.length + 1) = .ok legal ∧
      (legal.types = (LegalValues.between schema (resolvedTokens front ++ [token])
          (resolvedTokens back.tail)).types ↔
        ¬ ∃ next rest, back = .resolved next :: rest ∧
          Hides (resolvedTokens front) (resolvedTokens rest) token next) ∧
      ((∃ next rest, back = .resolved next :: rest ∧
          Hides (resolvedTokens front) (resolvedTokens rest) token next) →
        legal.types = (LegalValues.between schema (resolvedTokens front ++ [token])
          (resolvedTokens back.tail)).types.insert .group) := by
  obtain ⟨after, legal, sees⟩ := legalValues_behind refits
  refine ⟨_, legal, ?_⟩
  rcases sees with ⟨rfl, stays⟩ | ⟨next, rest, rfl, rfl, unfit⟩
  · -- No slot was opened, and an opening bracket cannot have stayed behind a bracket.
    have shown : ¬ ∃ next rest, back = .resolved next :: rest ∧
        Hides (resolvedTokens front) (resolvedTokens rest) token next := by
      rintro ⟨_, rest, rfl, isBracket, rfl, -⟩
      cases token with
      | bracket half =>
          exact LegalValues.not_opening_behind_bracket List.getLast?_concat (stays _ _ rfl)
      | field | operator | value | combinator => cases isBracket
    exact ⟨iff_of_true rfl shown, fun hides => absurd hides shown⟩
  · obtain ⟨announced, hidden⟩ := types_behind notValue unfit
    have hides_iff : (∃ first others, Slot.resolved next :: rest = .resolved first :: others ∧
        Hides (resolvedTokens front) (resolvedTokens others) token first) ↔
          Hides (resolvedTokens front) (resolvedTokens rest) token next := by
      simp
    rw [hides_iff, List.tail_cons]
    refine ⟨⟨fun same hides => ?_, announced⟩, fun hides => (hidden hides).2⟩
    obtain ⟨unannounced, legal⟩ := hidden hides
    rw [← same, legal, TypeSet.contains_insert] at unannounced
    cases unannounced

/-- Every suggestion for a pending slot can be taken, and then the types that are legal in the next
slot are those that were announced, unless the suggestion hides that a group may end there.  In that
case brackets are legal though they were not announced. -/
theorem suggestion_opens (draft : Draft) {slot : Slot} (found : draft.slots[index]? = some slot)
    (pending : slot.isPending = true) :
    ∃ offered, draft.suggest index "" = .ok offered ∧ ∀ entry ∈ offered, ∃ edited legal,
      draft.resolve index entry.name entry.type = .ok edited ∧
      edited.legalValues (index + 1) = .ok legal ∧
      (legal.types = entry.nextLegalTypes ↔ ¬ draft.HidesClosing index entry) ∧
      (draft.HidesClosing index entry → legal.types = entry.nextLegalTypes.insert .group) := by
  obtain ⟨front, back, split, rfl⟩ := split_of_getElem? found
  have values := legalValues_eq split
  refine ⟨_, suggest_nothing values, ?_⟩
  intro entry listed
  obtain ⟨⟨token, label⟩, among, rfl⟩ := List.mem_map.mp listed
  have notValue : token.type ≠ .value := LegalValues.type_ne_value_of_mem_choices among
  have called : token.IsCalled token.type token.text := by
    rw [Token.IsCalled, if_neg notValue]
    exact ⟨rfl, rfl⟩
  have allowed := LegalValues.allows_of_mem_choices among
  obtain ⟨behind, refits⟩ : ∃ behind, refit draft.schema (resolvedTokens front) token
      slot.isPending back = some behind := (exists_refit_iff split).mpr (.inl pending)
  have taken := (resolve_iff split values).mpr ⟨token, behind, called, allowed, refits, rfl⟩
  rw [pending] at refits
  obtain ⟨legal, behindLegal, types⟩ := types_of_refit refits notValue
  refine ⟨_, legal, taken, behindLegal, ?_⟩
  have announced : (draft.suggestion front.length (token, label)).nextLegalTypes = _ :=
    typesOpenedBy_eq split
  rwa [hidesClosing_iff split notValue, announced]

end Draft

/-- A draft with a pending slot in front of an empty group. -/
def frontedDraft : Draft :=
  ⟨.builtin,
    [.fresh .initial, .resolved (.bracket .opening), .fresh .initial,
      .resolved (.bracket .closing)]⟩

theorem frontedDraft_opens : ∃ edited legal, frontedDraft.resolve 0 "text" .field = .ok edited ∧
    edited.legalValues 1 = .ok legal ∧ legal.types = TokenType.field.follow := by
  have pending : frontedDraft.slots[0]? = some (.fresh .initial) := rfl
  obtain ⟨offered, isOffered, opens⟩ := frontedDraft.suggestion_opens pending rfl
  have listed : (⟨"text", "Text", .field, TokenType.field.follow⟩ : Suggestion) ∈ offered := by
    cases isOffered
    exact List.mem_cons_self
  obtain ⟨edited, legal, taken, behind, same, -⟩ := opens _ listed
  have shown : ¬ frontedDraft.HidesClosing 0 ⟨"text", "Text", .field, TokenType.field.follow⟩ := by
    rintro ⟨token, next, named, -, isBracket, -⟩
    cases named
    cases isBracket
  exact ⟨edited, legal, taken, behind, same.mpr shown⟩

/-- An opening bracket opens a group that may end at once, which is not announced. -/
theorem frontedDraft_opens_more : ∃ history offered edited legal,
    Run Edit.keepsSlots .builtin history frontedDraft ∧ frontedDraft.suggest 0 "" = .ok offered ∧
      ∃ entry ∈ offered, frontedDraft.resolve 0 entry.name entry.type = .ok edited ∧
        edited.legalValues 1 = .ok legal ∧ legal.types ≠ entry.nextLegalTypes := by
  have edits : [Edit.insertGroup 1].foldlM Draft.perform (.new .builtin) = .ok frontedDraft := rfl
  have new : Run Edit.keepsSlots .builtin [] (.new .builtin) := .start
  obtain ⟨history, run⟩ := new.of_foldlM (by decide) edits
  obtain ⟨offered, isOffered, listed⟩ : ∃ offered, frontedDraft.suggest 0 "" = .ok offered ∧
      (⟨"(", "(", .group, .ofList [.field]⟩ : Suggestion) ∈ offered := ⟨_, rfl, by decide⟩
  refine ⟨_, _, _, _, run, isOffered, _, listed, rfl, rfl, ?_⟩
  decide

end FilterQuery
