import FilterQuery.Proofs.Edits
import FilterQuery.Schema.Basic

namespace FilterQuery

namespace Draft

variable {draft edited : Draft} {front back : List Slot} {slot : Slot} {token : Token} {index : Nat}
  {name typed : String} {type : TokenType} {key : MatchKey} {legal : LegalValues}
  {offered : List Suggestion} {entry : Suggestion}

/-- Whether a slot takes the token of some type that a name stands for. -/
def Takes (draft : Draft) (index : Nat) (name : String) (type : TokenType) : Prop :=
  ∃ edited, draft.resolve index name type = .ok edited

def LetsStay (draft : Draft) (index : Nat) (token : Token) : Prop :=
  ∀ next, draft.slots[index + 1]? = some (.resolved next) →
    token.type.follow.contains next.type = true ∧
      (⟨draft.schema, draft.slots.set index (.resolved token)⟩ : Draft).allows (index + 1) next =
        true

theorem letsStay_iff (split : draft.slots = front ++ slot :: back) :
    draft.LetsStay front.length token ↔ ∀ next rest, back = .resolved next :: rest →
      token.type.follow.contains next.type = true ∧
        (LegalValues.between draft.schema (resolvedTokens front ++ [token])
          (resolvedTokens rest)).allows next = true := by
  have behind : draft.slots[front.length + 1]? = back[0]? := by
    rw [split, List.getElem?_append_right (Nat.le_add_right _ 1), Nat.add_sub_cancel_left,
      List.getElem?_cons_succ]
  unfold LetsStay
  rw [behind, split, set_length_append]
  constructor
  · rintro stays next rest rfl
    simpa only [allows_behind] using stays next rfl
  · intro stays next found
    cases back with
    | nil => cases found
    | cons first rest =>
        cases found
        simpa only [allows_behind] using stays next rest rfl

theorem exists_refit_iff (split : draft.slots = front ++ slot :: back) :
    (∃ behind, refit draft.schema (resolvedTokens front) token slot.isPending back = some behind) ↔
      slot.isPending = true ∨ draft.LetsStay front.length token := by
  rw [letsStay_iff split]
  cases back with
  | nil => simp [refit]
  | cons first rest =>
      cases first with
      | pending candidates text => simp [refit]
      | resolved next =>
          -- What is asked of any next token is asked of the one that is there.
          have only : (∀ other others, Slot.resolved next :: rest = .resolved other :: others →
              token.type.follow.contains other.type = true ∧
                (LegalValues.between draft.schema (resolvedTokens front ++ [token])
                  (resolvedTokens others)).allows other = true) ↔
              (token.type.follow.contains next.type &&
                (LegalValues.between draft.schema (resolvedTokens front ++ [token])
                  (resolvedTokens rest)).allows next) = true := by
            rw [Bool.and_eq_true]
            constructor
            · exact fun all => all next rest rfl
            · rintro both _ _ ⟨⟩
              exact both
          rw [only, refit]
          split
          next fits => exact iff_of_true ⟨_, rfl⟩ (.inr fits)
          next unfit => cases slot.isPending <;> simp [unfit]

/-- A token is taken by its type and name if it is legal and the next slot can be made to fit. -/
theorem resolve_iff (split : draft.slots = front ++ slot :: back)
    (values : draft.legalValues front.length = .ok legal) :
    draft.resolve front.length name type = .ok edited ↔
      ∃ token behind, token.IsCalled type name ∧ legal.allows token = true ∧
        refit draft.schema (resolvedTokens front) token slot.isPending back = some behind ∧
        edited = ⟨draft.schema, front ++ .resolved token :: behind⟩ := by
  constructor
  · intro done
    unfold resolve at done
    split at done
    next => cases done
    next token chosen =>
      obtain ⟨called, allowed⟩ := (choose_ok_iff_isCalled values).mp chosen
      rw [place_eq split] at done
      cases refits : refit draft.schema (resolvedTokens front) token slot.isPending back with
      | some behind =>
          rw [refits] at done
          cases done
          exact ⟨token, behind, called, allowed, refits, rfl⟩
      | none =>
          rw [refits] at done
          cases done
  · rintro ⟨token, behind, called, allowed, refits, rfl⟩
    have chosen := (choose_ok_iff_isCalled values).mpr ⟨called, allowed⟩
    rw [resolve, chosen]
    simp only [place_eq split, refits, Option.map_some]

/-- A pending slot takes whatever is legal.  A token is replaced by another legal one only if the
next token may stay. -/
theorem takes_iff (split : draft.slots = front ++ slot :: back)
    (values : draft.legalValues front.length = .ok legal) :
    draft.Takes front.length name type ↔
      ∃ token, token.IsCalled type name ∧ legal.allows token = true ∧
        (slot.isPending = true ∨ draft.LetsStay front.length token) := by
  constructor
  · rintro ⟨edited, done⟩
    obtain ⟨token, behind, called, allowed, refits, -⟩ := (resolve_iff split values).mp done
    exact ⟨token, called, allowed, (exists_refit_iff split).mp ⟨behind, refits⟩⟩
  · rintro ⟨token, called, allowed, fits⟩
    obtain ⟨behind, refits⟩ := (exists_refit_iff split).mpr fits
    exact ⟨_, (resolve_iff split values).mpr ⟨token, behind, called, allowed, refits, rfl⟩⟩

theorem takes_value_iff (split : draft.slots = front ++ slot :: back)
    (values : draft.legalValues front.length = .ok legal) :
    draft.Takes front.length name .value ↔ legal.value = true ∧
      (slot.isPending = true ∨ draft.LetsStay front.length (.value (Text.quote name))) := by
  simp [takes_iff split values, Token.IsCalled, LegalValues.allows]

theorem takes_other_iff (split : draft.slots = front ++ slot :: back)
    (values : draft.legalValues front.length = .ok legal) (notValue : type ≠ .value) :
    draft.Takes front.length name type ↔
      ∃ token, token.type = type ∧ token.text = name ∧ legal.allows token = true ∧
        (slot.isPending = true ∨ draft.LetsStay front.length token) := by
  simp only [takes_iff split values, Token.IsCalled, if_neg notValue, and_assoc]

theorem suggest_nothing (values : draft.legalValues index = .ok legal) :
    draft.suggest index "" = .ok (legal.choices.map (draft.suggestion index)) := by
  have everything : legal.choices.filter
      (fun choice => MatchKey.label.accepts "" choice.1.text choice.2) = legal.choices :=
    List.filter_eq_self.mpr fun _ _ => rfl
  rw [suggest, suggestMatching, values]
  exact congrArg (fun choices => Except.ok (choices.map (draft.suggestion index))) everything

theorem exists_choice_of_mem (values : draft.legalValues index = .ok legal)
    (shown : draft.suggestMatching index typed key = .ok offered) (listed : entry ∈ offered) :
    ∃ choice ∈ legal.choices, draft.suggestion index choice = entry := by
  rw [suggestMatching, values] at shown
  cases shown
  obtain ⟨choice, kept, same⟩ := List.mem_map.mp listed
  exact ⟨choice, (List.mem_filter.mp kept).1, same⟩

theorem exists_suggestion_iff (notValue : type ≠ .value) :
    (∃ entry ∈ legal.choices.map (draft.suggestion index), entry.type = type ∧ entry.name = name) ↔
      ∃ token, token.type = type ∧ token.text = name ∧ legal.allows token = true := by
  constructor
  · rintro ⟨entry, listed, sameType, sameName⟩
    obtain ⟨choice, among, rfl⟩ := List.mem_map.mp listed
    exact ⟨choice.1, sameType, sameName, LegalValues.allows_of_mem_choices among⟩
  · rintro ⟨token, rfl, rfl, allowed⟩
    obtain ⟨label, among⟩ := LegalValues.exists_mem_choices allowed notValue
    exact ⟨_, List.mem_map_of_mem among, rfl, rfl⟩

/-- At any slot of any row, the entries that are offered before anything is typed are the legal
tokens.  A pending slot takes exactly these, a value where values are legal, and so every entry that
it shows whatever has been typed.  In place of a token they are taken if the next token may stay. -/
theorem takes_iff_offered (draft : Draft) (found : draft.slots[index]? = some slot) :
    ∃ legal offered, draft.legalValues index = .ok legal ∧ draft.suggest index "" = .ok offered ∧
      (∀ name type, type ≠ .value →
        ((∃ entry ∈ offered, entry.type = type ∧ entry.name = name) ↔
          ∃ token, token.type = type ∧ token.text = name ∧ legal.allows token = true)) ∧
      (slot.isPending = true →
        (∀ name type, type ≠ .value → (draft.Takes index name type ↔
          ∃ entry ∈ offered, entry.type = type ∧ entry.name = name)) ∧
        (∀ name, draft.Takes index name .value ↔ legal.value = true) ∧
        ∀ typed key shown, draft.suggestMatching index typed key = .ok shown →
          ∀ entry ∈ shown, draft.Takes index entry.name entry.type) ∧
      (slot.isPending = false →
        (∀ name type, type ≠ .value → (draft.Takes index name type ↔
          ∃ token, token.type = type ∧ token.text = name ∧ legal.allows token = true ∧
            draft.LetsStay index token)) ∧
        ∀ name, draft.Takes index name .value ↔
          legal.value = true ∧ draft.LetsStay index (.value (Text.quote name))) := by
  obtain ⟨front, back, split, rfl⟩ := split_of_getElem? found
  have values := legalValues_eq split
  refine ⟨_, _, values, suggest_nothing values, fun _ _ => exists_suggestion_iff, ?_, ?_⟩
  · intro pending
    refine ⟨?_, ?_, ?_⟩
    · intro name type notValue
      rw [takes_other_iff split values notValue, exists_suggestion_iff notValue]
      simp only [pending, true_or, and_true]
    · intro name
      simp only [takes_value_iff split values, pending, true_or, and_true]
    · intro typed key shown suggested entry listed
      obtain ⟨choice, among, rfl⟩ := exists_choice_of_mem values suggested listed
      have notValue : choice.1.type ≠ .value := LegalValues.type_ne_value_of_mem_choices among
      refine (takes_other_iff split values notValue).mpr ?_
      exact ⟨choice.1, rfl, rfl, LegalValues.allows_of_mem_choices among, .inl pending⟩
  · intro resolved
    refine ⟨?_, ?_⟩
    · intro name type notValue
      simp only [takes_other_iff split values notValue, resolved, Bool.false_eq_true, false_or]
    · intro name
      simp only [takes_value_iff split values, resolved, Bool.false_eq_true, false_or]

/-- A row that no edits lead to.  A slot that waits for anything stands between an operator and a
closing bracket without a partner. -/
def strayDraft : Draft :=
  ⟨.builtin,
    [.resolved (.field "text"), .resolved (.operator "in"), .pending (.ofList TokenType.all) "",
      .resolved (.bracket .closing)]⟩

theorem strayDraft_takes :
    strayDraft.Takes 2 "OR" .combinator ∧ ¬ strayDraft.Takes 2 "or" .combinator ∧
      strayDraft.Takes 2 "a" .value ∧ strayDraft.Takes 0 "classifier" .field ∧
      ¬ strayDraft.Takes 0 "created_date" .field := by
  have waiting : strayDraft.slots[2]? = some (.pending (.ofList TokenType.all) "") := rfl
  have filled : strayDraft.slots[0]? = some (.resolved (.field "text")) := rfl
  obtain ⟨legal, offered, values, shown, -, waits, -⟩ := takes_iff_offered strayDraft waiting
  obtain ⟨others, value, -⟩ := waits rfl
  obtain ⟨_, _, known, -, -, -, replaces⟩ := takes_iff_offered strayDraft filled
  obtain ⟨fields, -⟩ := replaces rfl
  cases Except.ok.inj (values.symm.trans rfl)
  cases Except.ok.inj (shown.symm.trans rfl)
  cases Except.ok.inj (known.symm.trans rfl)
  rw [others "OR" .combinator nofun, others "or" .combinator nofun, value "a",
    fields "classifier" .field nofun, fields "created_date" .field nofun]
  refine ⟨by decide, by decide, rfl, ⟨.field "classifier", rfl, rfl, by decide, ?_⟩, ?_⟩
  · rintro next ⟨⟩
    exact ⟨rfl, by decide⟩
  · rintro ⟨token, isField, named, -, stays⟩
    cases token with
    | field name =>
        cases named
        exact absurd (stays (.operator "in") rfl).2 (by decide)
    | operator | value | combinator | bracket => cases isField

end Draft

variable {draft : Draft} {index : Nat} {typed name label : String} {key : MatchKey}

theorem MatchKey.accepts_iff : key.accepts typed name label = true ↔
    (Text.lower typed).toList <:+: (Text.lower label).toList ∨
      key = .labelOrName ∧ (Text.lower typed).toList <:+: (Text.lower name).toList := by
  have nothing : (Text.lower typed).isEmpty = true →
      (Text.lower typed).toList <:+: (Text.lower label).toList := by
    intro empty
    rw [String.isEmpty_iff.mp empty, String.toList_empty]
    exact List.nil_infix
  simp only [accepts, Bool.or_eq_true, Bool.and_eq_true, beq_iff_eq, Text.contains_iff_infix]
  exact ⟨Or.imp_left fun either => either.elim nothing id, Or.imp_left .inr⟩

namespace Draft

theorem suggestMatching_eq_filter (draft : Draft) (index : Nat) (typed : String) (key : MatchKey) :
    draft.suggestMatching index typed key = (draft.suggest index "").map
      (List.filter fun entry => key.accepts typed entry.name entry.label) := by
  cases values : draft.legalValues index with
  | error error => simp only [suggest, suggestMatching, values, Except.map]
  | ok legal =>
      rw [suggest_nothing values, suggestMatching, values]
      simp only [Except.map, List.filter_map]
      rfl

/-- Before anything is typed it does not matter what would be compared. -/
theorem suggestMatching_nothing (draft : Draft) (index : Nat) (key : MatchKey) :
    draft.suggestMatching index "" key = draft.suggest index "" := by
  rw [suggest, suggestMatching, suggestMatching]
  rfl

end Draft
end FilterQuery
