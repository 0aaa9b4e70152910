import FilterQuery.Draft.Edit
import FilterQuery.Proofs.Legality

namespace FilterQuery

inductive Edit where
  | resolve (index : Nat) (name : String) (type : TokenType)
  | commitValue (index : Nat)
  | editValue (index : Nat) (text : String)
  | insertGroup (index : Nat)
  | deleteSlot (index : Nat)
deriving DecidableEq, Repr

namespace Edit

def selects : Edit → Bool
  | .resolve _ _ _ | .commitValue _ | .editValue _ _ => true
  | .insertGroup _ | .deleteSlot _ => false

def keepsSlots : Edit → Bool
  | .deleteSlot _ => false
  | _ => true

def index : Edit → Nat
  | .resolve index _ _ => index
  | .commitValue index => index
  | .editValue index _ => index
  | .insertGroup index => index
  | .deleteSlot index => index

end Edit

/-- What a place for a slot behind some others may take. -/
def candidatesBehind (front : List Slot) : Slot → TypeSet
  | .pending candidates _ => candidates
  | .resolved _ => typesAfter front

/-- The slots behind a token that was taken, with the next one made to fit. -/
def refit (schema : Schema) (before : List Token) (token : Token) (wasPending : Bool) :
    List Slot → Option (List Slot)
  | [] => some [.fresh token.type.follow]
  | .pending candidates text :: rest =>
      some ((Slot.pending candidates text).reseed token.type.follow :: rest)
  | .resolved next :: rest =>
      if token.type.follow.contains next.type &&
          (LegalValues.between schema (before ++ [token]) (resolvedTokens rest)).allows next then
        some (.resolved next :: rest)
      else if wasPending then some (.fresh token.type.follow :: .resolved next :: rest)
      else none

section Lists

variable {α : Type} {front back : List α} {item next : α}

theorem set_length_append : (front ++ item :: back).set front.length next =
    front ++ next :: back := by
  induction front with
  | nil => rfl
  | cons first rest ih => exact congrArg (first :: ·) ih

theorem modify_length_append (change : α → α) :
    (front ++ item :: back).modify front.length change = front ++ change item :: back := by
  induction front with
  | nil => rfl
  | cons first rest ih => exact congrArg (first :: ·) ih

theorem getElem?_length_append : (front ++ item :: back)[front.length]? = some item := by
  rw [List.getElem?_append_right (Nat.le_refl _), Nat.sub_self]
  rfl

theorem insertIdx_length_append : (front ++ back).insertIdx front.length next =
    front ++ next :: back := by
  induction front with
  | nil => rfl
  | cons first rest ih => exact congrArg (first :: ·) ih

theorem drop_succ_length_append : (front ++ item :: back).drop (front.length + 1) = back := by
  rw [List.drop_append, List.drop_eq_nil_of_le (Nat.le_succ _), Nat.add_sub_cancel_left]
  rfl

theorem split_of_getElem? {items : List α} {index : Nat} (found : items[index]? = some item) :
    ∃ front back, items = front ++ item :: back ∧ index = front.length := by
  obtain ⟨below, same⟩ := List.getElem?_eq_some_iff.mp found
  refine ⟨items.take index, items.drop (index + 1), ?_, (List.length_take_of_le (by omega)).symm⟩
  rw [← same, List.getElem_cons_drop, List.take_append_drop]

end Lists

theorem refit_tokens {schema : Schema} {before : List Token} {token : Token} {wasPending : Bool}
    {back behind : List Slot} (refits : refit schema before token wasPending back = some behind) :
    resolvedTokens behind = resolvedTokens back := by
  unfold refit at refits
  split at refits
  · cases refits
    rfl
  · cases refits
    simp only [resolvedTokens_cons, Slot.token?_reseed]
  · split at refits
    · cases refits
      rfl
    · split at refits
      · cases refits
        rfl
      · cases refits

/-- What is true of every fresh slot and stays so with other candidates stays true behind a token
that is taken. -/
theorem forall_mem_of_refit {schema : Schema} {before : List Token} {token : Token}
    {wasPending : Bool} {back behind : List Slot} {holds : Slot → Prop}
    (refits : refit schema before token wasPending back = some behind)
    (fresh : ∀ candidates, holds (.fresh candidates))
    (reseeds : ∀ slot candidates, holds slot → holds (slot.reseed candidates))
    (all : ∀ slot ∈ back, holds slot) : ∀ slot ∈ behind, holds slot := by
  unfold refit at refits
  split at refits
  next =>
    cases refits
    exact List.forall_mem_singleton.mpr (fresh _)
  next current text rest =>
    cases refits
    obtain ⟨first, others⟩ := List.forall_mem_cons.mp all
    exact List.forall_mem_cons.mpr ⟨reseeds _ _ first, others⟩
  next =>
    split at refits
    · cases refits
      exact all
    · split at refits
      · cases refits
        exact List.forall_mem_cons.mpr ⟨fresh _, all⟩
      · cases refits

theorem LegalValues.allows_of_mem_choices {legal : LegalValues} {choice : Token × String}
    (listed : choice ∈ legal.choices) : legal.allows choice.1 = true := by
  simp only [choices, List.mem_append, List.mem_map] at listed
  rcases listed with ((⟨field, known, rfl⟩ | ⟨operator, known, rfl⟩) | ⟨found, known, rfl⟩) |
    ⟨half, known, rfl⟩
  · exact List.any_eq_true.mpr ⟨field, known, beq_self_eq_true _⟩
  · exact List.any_eq_true.mpr ⟨operator, known, beq_self_eq_true _⟩
  · exact List.contains_iff_mem.mpr known
  · exact List.contains_iff_mem.mpr known

theorem LegalValues.type_ne_value_of_mem_choices {legal : LegalValues} {choice : Token × String}
    (listed : choice ∈ legal.choices) : choice.1.type ≠ .value := by
  intro isValue
  simp only [choices, List.mem_append, List.mem_map] at listed
  rcases listed with ((⟨_, _, rfl⟩ | ⟨_, _, rfl⟩) | ⟨_, _, rfl⟩) | ⟨_, _, rfl⟩ <;> cases isValue

theorem ofName?_of_matches {choice : Token × String} {type : TokenType} {name : String}
    (notValue : type ≠ .value)
    (matching : (choice.1.type == type && choice.1.text == name) = true) :
    Token.ofName? type name = some choice.1 := by
  rw [Bool.and_eq_true, beq_iff_eq, beq_iff_eq] at matching
  obtain ⟨rfl, rfl⟩ := matching
  exact Token.ofName?_text notValue

theorem LegalValues.exists_mem_choices {legal : LegalValues} {token : Token}
    (allowed : legal.allows token = true) (notValue : token.type ≠ .value) :
    ∃ label, (token, label) ∈ legal.choices := by
  simp only [choices, List.mem_append, List.mem_map]
  cases token with
  | field name =>
      obtain ⟨field, listed, same⟩ := List.any_eq_true.mp allowed
      rw [beq_iff_eq] at same
      subst same
      exact ⟨_, .inl (.inl (.inl ⟨field, listed, rfl⟩))⟩
  | operator name =>
      obtain ⟨operator, listed, same⟩ := List.any_eq_true.mp allowed
      rw [beq_iff_eq] at same
      subst same
      exact ⟨_, .inl (.inl (.inr ⟨operator, listed, rfl⟩))⟩
  | value raw => exact absurd rfl notValue
  | combinator word =>
      exact ⟨_, .inl (.inr ⟨word, List.contains_iff_mem.mp allowed, rfl⟩)⟩
  | bracket half => exact ⟨_, .inr ⟨half, List.contains_iff_mem.mp allowed, rfl⟩⟩

/-- Whether a token has a type and a name.  The name of a value is put between quotes first. -/
def Token.IsCalled (token : Token) (type : TokenType) (name : String) : Prop :=
  if type = .value then token = .value (Text.quote name)
  else token.type = type ∧ token.text = name

theorem Token.IsCalled.named {token : Token} {type : TokenType} {name : String}
    (called : token.IsCalled type name) : Token.ofName? type name = some token := by
  unfold IsCalled at called
  split at called
  next isValue =>
    subst isValue called
    rfl
  next notValue =>
    obtain ⟨rfl, rfl⟩ := called
    exact Token.ofName?_text notValue

/-- Whether an edit is to take a token: the one with a type and a name, or the value that was typed
into a slot. -/
def Edit.Names (slots : List Slot) (token : Token) : Edit → Prop
  | .resolve _ name type => token.IsCalled type name
  | .commitValue index =>
      ∃ slot, slots[index]? = some slot ∧ token = .value (Text.quote slot.text)
  | _ => False

namespace Draft

variable {draft edited : Draft} {front back : List Slot} {slot : Slot} {token : Token}
  {index : Nat} {name : String} {type : TokenType}

theorem slot_eq (split : draft.slots = front ++ slot :: back) :
    draft.slot front.length = .ok slot := by
  rw [Draft.slot, split, getElem?_length_append]

theorem split_of_slot (found : draft.slot index = .ok slot) :
    ∃ front back, draft.slots = front ++ slot :: back ∧ index = front.length := by
  unfold Draft.slot at found
  split at found
  next slot same =>
    cases found
    exact split_of_getElem? same
  next => cases found

theorem legalValues_eq (split : draft.slots = front ++ slot :: back) :
    draft.legalValues front.length = .ok (.of draft.schema (candidatesBehind front slot)
      (.between (resolvedTokens front) (resolvedTokens back))) := by
  have before : draft.slots.take front.length = front := by
    rw [split, List.take_left]
  have after : draft.slots.drop (front.length + 1) = back := by
    rw [split, drop_succ_length_append]
  rw [legalValues, candidateTypes, slot_eq split, SlotContext.around, before, after]
  cases slot <;> rfl

theorem of_candidatesBehind_resolved {schema : Schema} {after : List Token} :
    LegalValues.of schema (candidatesBehind front (.resolved token))
        (.between (resolvedTokens front) after) =
      .between schema (resolvedTokens front) after := rfl

theorem legalValues_resolved (split : draft.slots = front ++ .resolved token :: back) :
    draft.legalValues front.length =
      .ok (.between draft.schema (resolvedTokens front) (resolvedTokens back)) := by
  rw [legalValues_eq split, of_candidatesBehind_resolved]

/-- A token is chosen exactly by its type and name, and where it is legal. -/
theorem choose_ok_iff_isCalled {legal : LegalValues} (values : draft.legalValues index = .ok legal) :
    draft.choose index name type = .ok token ↔
      token.IsCalled type name ∧ legal.allows token = true := by
  simp only [choose, values, Token.IsCalled]
  by_cases isValue : type = .value
  · rw [if_pos isValue, if_pos isValue]
    constructor
    · intro chosen
      split at chosen
      next may =>
        cases chosen
        exact ⟨rfl, may⟩
      next => cases chosen
    · rintro ⟨rfl, may⟩
      exact if_pos may
  · rw [if_neg isValue, if_neg isValue]
    constructor
    · intro chosen
      split at chosen
      next choice picked =>
        cases chosen
        have matching := List.find?_some picked
        rw [Bool.and_eq_true, beq_iff_eq, beq_iff_eq] at matching
        exact ⟨matching, LegalValues.allows_of_mem_choices (List.mem_of_find?_eq_some picked)⟩
      next => cases chosen
    · rintro ⟨⟨rfl, rfl⟩, allowed⟩
      obtain ⟨label, listed⟩ := LegalValues.exists_mem_choices allowed isValue
      cases picked : legal.choices.find? fun choice =>
          choice.1.type == token.type && choice.1.text == token.text with
      | none =>
          have missed := List.find?_eq_none.mp picked (token, label) listed
          rw [beq_self_eq_true, beq_self_eq_true] at missed
          exact absurd rfl missed
      | some choice =>
          have matching := List.find?_some picked
          have named := ofName?_of_matches isValue matching
          rw [Token.ofName?_text isValue] at named
          cases named
          rfl

theorem choose_ok (chosen : draft.choose index name type = .ok token) :
    ∃ legal, draft.legalValues index = .ok legal ∧ legal.allows token = true ∧
      Token.ofName? type name = some token := by
  cases values : draft.legalValues index with
  | error error =>
      rw [choose, values] at chosen
      cases chosen
  | ok legal =>
      obtain ⟨called, allowed⟩ := (choose_ok_iff_isCalled values).mp chosen
      exact ⟨legal, rfl, allowed, called.named⟩

theorem isCalled_of_choose (chosen : draft.choose index name type = .ok token) :
    token.IsCalled type name := by
  obtain ⟨legal, values, -⟩ := choose_ok chosen
  exact ((choose_ok_iff_isCalled values).mp chosen).1

theorem allows_resolved {previous : Token}
    (split : draft.slots = front ++ .resolved previous :: back) :
    draft.allows front.length token =
      (LegalValues.between draft.schema (resolvedTokens front) (resolvedTokens back)).allows
        token := by
  rw [allows, legalValues_resolved split]

theorem allows_behind {schema : Schema} {next : Token} {rest : List Slot} :
    (⟨schema, front ++ .resolved token :: .resolved next :: rest⟩ : Draft).allows
        (front.length + 1) next =
      (LegalValues.between schema (resolvedTokens front ++ [token])
        (resolvedTokens rest)).allows next := by
  have split : front ++ .resolved token :: .resolved next :: rest =
      (front ++ [.resolved token]) ++ .resolved next :: rest := by
    rw [List.append_assoc]
    rfl
  have allowed := @allows_resolved ⟨schema, _⟩ _ _ next _ split
  rwa [List.length_append, List.length_singleton, resolvedTokens_append] at allowed

theorem place_eq (split : draft.slots = front ++ slot :: back) :
    draft.place front.length token =
      (refit draft.schema (resolvedTokens front) token slot.isPending back).map fun behind =>
        ⟨draft.schema, front ++ .resolved token :: behind⟩ := by
  have taken : draft.slots.set front.length (.resolved token) =
      front ++ .resolved token :: back := by
    rw [split, set_length_append]
  have asNext : front ++ .resolved token :: back = (front ++ [.resolved token]) ++ back := by
    rw [List.append_assoc]
    rfl
  have length : front.length + 1 = (front ++ [Slot.resolved token]).length := by
    rw [List.length_append]
    rfl
  have addressed : draft.slots[front.length]? = some slot := by
    rw [split, getElem?_length_append]
  unfold place
  simp only [taken, addressed, Option.any_some]
  rw [asNext, length, List.getElem?_append_right (Nat.le_refl _), Nat.sub_self]
  cases back with
  | nil => simp [refit]
  | cons next rest =>
      cases next with
      | pending candidates text =>
          simp only [List.getElem?_cons_zero, refit, modify_length_append, Option.map_some]
          rw [List.append_assoc]
          rfl
      | resolved next =>
          have allowed : (⟨draft.schema, (front ++ [.resolved token]) ++ .resolved next :: rest⟩ :
              Draft).allows (front ++ [Slot.resolved token]).length next =
                (LegalValues.between draft.schema (resolvedTokens front ++ [token])
                  (resolvedTokens rest)).allows next := by
            rw [← length, ← asNext, allows_behind]
          simp only [List.getElem?_cons_zero, allowed, insertIdx_length_append, refit]
          split
          · simp
          · split <;> simp

def perform (draft : Draft) : Edit → Except EditError Draft
  | .resolve index name type => draft.resolve index name type
  | .commitValue index => draft.commitValue index
  | .editValue index text => draft.editValue index text
  | .insertGroup index => (draft.insertGroup index).map Prod.fst
  | .deleteSlot index => draft.deleteSlot index

/-- The token that an edit takes, and the index of the slot. -/
def taken (draft : Draft) : Edit → Option (Nat × Token)
  | .resolve index name type => (draft.choose index name type).toOption.map (index, ·)
  | .commitValue index =>
      match draft.slot index with
      | .ok slot => (draft.choose index slot.text .value).toOption.map (index, ·)
      | .error _ => none
  | _ => none

/-- What an edit can do to a draft. -/
inductive Performs (draft : Draft) : Edit → Draft → Prop
  | takes {edit : Edit} {front back behind : List Slot} {slot : Slot} {token : Token}
      (taken : draft.taken edit = some (front.length, token))
      (split : draft.slots = front ++ slot :: back)
      (legal : (LegalValues.of draft.schema (candidatesBehind front slot)
        (.between (resolvedTokens front) (resolvedTokens back))).allows token = true)
      (refits : refit draft.schema (resolvedTokens front) token slot.isPending back = some behind) :
      Performs draft edit ⟨draft.schema, front ++ .resolved token :: behind⟩
  | rewords {front back : List Slot} {slot : Slot} {text : String}
      (split : draft.slots = front ++ slot :: back) (isValue : slot.isValueSlot = true)
      (quoted : Text.isQuoted text = true) :
      Performs draft (.editValue front.length text)
        ⟨draft.schema, front ++ withText text slot :: back⟩
  | groups {front back : List Slot} (split : draft.slots = front ++ back)
      (fits : groupFits ⟨draft.schema, withGroup draft.slots front.length⟩ front.length = true) :
      Performs draft (.insertGroup front.length)
        ⟨draft.schema, withGroup draft.slots front.length⟩
  | removes {front back : List Slot} {slot : Slot} (split : draft.slots = front ++ slot :: back)
      (unprotected : isProtected slot = false) :
      Performs draft (.deleteSlot front.length)
        ⟨draft.schema, withoutSlot draft.slots front.length⟩

theorem performs_of_resolve {edit : Edit} (done : draft.resolve index name type = .ok edited)
    (taken : draft.taken edit = (draft.choose index name type).toOption.map (index, ·)) :
    draft.Performs edit edited := by
  unfold resolve at done
  split at done
  next => cases done
  next token chosen =>
    obtain ⟨legal, found, allowed, -⟩ := choose_ok chosen
    obtain ⟨slot, addressed⟩ : ∃ slot, draft.slot index = .ok slot := by
      cases addressed : draft.slot index with
      | ok slot => exact ⟨slot, rfl⟩
      | error error =>
          rw [legalValues, candidateTypes, addressed] at found
          cases found
    obtain ⟨front, back, split, rfl⟩ := split_of_slot addressed
    rw [legalValues_eq split] at found
    cases found
    rw [place_eq split] at done
    cases refits : refit draft.schema (resolvedTokens front) token slot.isPending back with
    | none =>
        rw [refits] at done
        cases done
    | some behind =>
        rw [refits] at done
        cases done
        rw [chosen] at taken
        exact .takes taken split allowed refits

/-- A successful edit does nothing else. -/
theorem performs {edit : Edit} (performed : draft.perform edit = .ok edited) :
    draft.Performs edit edited := by
  cases edit with
  | resolve index name type => exact performs_of_resolve performed rfl
  | commitValue index =>
      change draft.commitValue index = _ at performed
      unfold commitValue at performed
      split at performed
      next => cases performed
      next slot addressed =>
        refine performs_of_resolve performed ?_
        rw [taken, addressed]
  | editValue index text =>
      change draft.editValue index text = _ at performed
      unfold editValue at performed
      split at performed
      next => cases performed
      next slot addressed =>
        obtain ⟨front, back, split, rfl⟩ := split_of_slot addressed
        split at performed
        next => cases performed
        next isValue =>
          split at performed
          next => cases performed
          next quoted =>
            cases performed
            rw [split, modify_length_append]
            exact .rewords split (by simpa using isValue) (by simpa using quoted)
  | insertGroup index =>
      change (draft.insertGroup index).map _ = _ at performed
      unfold insertGroup at performed
      split at performed
      next => cases performed
      next within =>
        have length : (draft.slots.take index).length = index :=
          List.length_take_of_le (Nat.le_of_not_lt within)
        simp only at performed
        split at performed
        next fits =>
          cases performed
          rw [← length]
          exact .groups (List.take_append_drop index draft.slots).symm (length.symm ▸ fits)
        next => cases performed
  | deleteSlot index =>
      change draft.deleteSlot index = _ at performed
      unfold deleteSlot at performed
      split at performed
      next => cases performed
      next slot addressed =>
        obtain ⟨front, back, split, rfl⟩ := split_of_slot addressed
        split at performed
        next => cases performed
        next unprotected =>
          cases performed
          exact .removes split (by simpa using unprotected)

theorem choose_of_map_eq_some {place : Nat}
    (picked : (draft.choose place name type).toOption.map (place, ·) = some (index, token)) :
    place = index ∧ draft.choose place name type = .ok token := by
  obtain ⟨chosen, found, same⟩ := Option.map_eq_some_iff.mp picked
  cases same
  cases choice : draft.choose index name type with
  | error error =>
      rw [choice] at found
      cases found
  | ok other =>
      rw [choice] at found
      cases found
      exact ⟨rfl, rfl⟩

/-- What an edit takes is what it names, and it is taken at the slot that the edit addresses. -/
theorem names_of_taken {edit : Edit} (taken : draft.taken edit = some (index, token)) :
    edit.index = index ∧ edit.Names draft.slots token := by
  cases edit with
  | resolve place name type =>
      obtain ⟨rfl, chosen⟩ := choose_of_map_eq_some taken
      exact ⟨rfl, isCalled_of_choose chosen⟩
  | commitValue place =>
      rw [Draft.taken] at taken
      split at taken
      next slot found =>
        obtain ⟨rfl, chosen⟩ := choose_of_map_eq_some taken
        obtain ⟨front, back, split, rfl⟩ := split_of_slot found
        refine ⟨rfl, slot, ?_, isCalled_of_choose chosen⟩
        rw [split, getElem?_length_append]
      next => cases taken
  | editValue | insertGroup | deleteSlot => cases taken

theorem taken_unique {edit : Edit} {front' back' : List Slot} {slot' : Slot} {token' : Token}
    (taken : draft.taken edit = some (front.length, token))
    (split : draft.slots = front ++ slot :: back)
    (taken' : draft.taken edit = some (front'.length, token'))
    (split' : draft.slots = front' ++ slot' :: back') :
    front = front' ∧ slot = slot' ∧ back = back' ∧ token = token' := by
  obtain ⟨length, rfl⟩ : front.length = front'.length ∧ token = token' := by
    simpa [taken] using taken'
  obtain ⟨rfl, rest⟩ := List.append_inj (split.symm.trans split') length
  cases rest
  exact ⟨rfl, rfl, rfl, rfl⟩

theorem Performs.schema {edit : Edit} (performs : draft.Performs edit edited) :
    edited.schema = draft.schema := by
  cases performs <;> rfl

theorem tokens_split (split : draft.slots = front ++ slot :: back) :
    draft.tokens = resolvedTokens front ++ (slot.token?.toList ++ resolvedTokens back) := by
  rw [Draft.tokens, split, resolvedTokens_append, resolvedTokens_cons]

theorem taken_tokens {schema : Schema} {before : List Token} {wasPending : Bool}
    {behind : List Slot} (refits : refit schema before token wasPending back = some behind) :
    resolvedTokens (front ++ .resolved token :: behind) =
      resolvedTokens front ++ token :: resolvedTokens back := by
  rw [resolvedTokens_append, resolvedTokens_cons, refit_tokens refits]
  rfl

theorem withGroup_tokens : resolvedTokens (withGroup (front ++ back) front.length) =
    resolvedTokens front ++ .bracket .opening :: .bracket .closing :: resolvedTokens back := by
  rw [withGroup, List.take_left, List.drop_left, resolvedTokens_append, resolvedTokens_append,
    List.append_assoc]
  cases back with
  | nil => rfl
  | cons next rest =>
      simp only [resolvedTokens_cons, Slot.token?_reseed]
      rfl

end Draft

/-- The runs of edits on a new draft, with every edit and the draft on which it was performed. -/
inductive Run (permitted : Edit → Bool) (schema : Schema) : List (Draft × Edit) → Draft → Prop
  | start : Run permitted schema [] (.new schema)
  | next {history : List (Draft × Edit)} {draft edited : Draft} {edit : Edit}
      (run : Run permitted schema history draft) (may : permitted edit = true)
      (performed : draft.perform edit = .ok edited) :
      Run permitted schema (history ++ [(draft, edit)]) edited

namespace Run

variable {permitted : Edit → Bool} {schema : Schema} {history : List (Draft × Edit)}
  {draft edited : Draft}

theorem of_foldlM {edits : List Edit} (run : Run permitted schema history draft)
    (may : ∀ edit ∈ edits, permitted edit = true)
    (performed : edits.foldlM Draft.perform draft = .ok edited) :
    ∃ later, Run permitted schema (history ++ later) edited := by
  induction edits generalizing history draft with
  | nil =>
      cases performed
      exact ⟨[], (List.append_nil history).symm ▸ run⟩
  | cons edit rest ih =>
      obtain ⟨first, others⟩ := List.forall_mem_cons.mp may
      rw [List.foldlM_cons] at performed
      cases step : draft.perform edit with
      | error error =>
          rw [step] at performed
          cases performed
      | ok next =>
          rw [step] at performed
          obtain ⟨later, continued⟩ := ih (run.next first step) others performed
          exact ⟨(draft, edit) :: later, by rwa [List.append_assoc] at continued⟩

theorem schema_eq (run : Run permitted schema history draft) : draft.schema = schema := by
  induction run with
  | start => rfl
  | next run may performed ih => exact (Draft.performs performed).schema.trans ih

/-- What is permitted in a run may be narrowed down to what was done in it. -/
theorem restrict {narrower : Edit → Bool} (run : Run permitted schema history draft)
    (all : ∀ step ∈ history, narrower step.2 = true) : Run narrower schema history draft := by
  induction run with
  | start => exact .start
  | next run may performed ih =>
      obtain ⟨earlier, last⟩ := List.forall_mem_append.mp all
      exact .next (ih earlier) (last _ List.mem_cons_self) performed

/-- If a property that a new draft has is kept by all edits but certain ones, it holds in all drafts
of a run exactly if none of those was made. -/
theorem holds_throughout_iff (run : Run permitted schema history draft) (holds : Draft → Prop)
    (breaks : Draft → Edit → Prop) (new : holds (.new schema))
    (kept : ∀ draft edit edited, permitted edit = true → draft.Performs edit edited →
      holds draft → (holds edited ↔ ¬ breaks draft edit)) :
    ((∀ step ∈ history, holds step.1) ∧ holds draft) ↔
      ∀ step ∈ history, ¬ breaks step.1 step.2 := by
  induction run with
  | start =>
      constructor
      · intro _ step listed
        cases listed
      · intro _
        exact ⟨(fun step listed => nomatch listed), new⟩
  | @next history draft edited edit run may performed ih =>
      have step := kept draft edit edited may (Draft.performs performed)
      rw [List.forall_mem_append, List.forall_mem_append, List.forall_mem_singleton,
        List.forall_mem_singleton]
      constructor
      · intro throughout
        obtain ⟨⟨earlier, before⟩, after⟩ := throughout
        exact ⟨ih.mp ⟨earlier, before⟩, (step before).mp after⟩
      · intro unbroken
        obtain ⟨earlier, unbroken⟩ := unbroken
        obtain ⟨throughout, before⟩ := ih.mpr earlier
        exact ⟨⟨throughout, before⟩, (step before).mpr unbroken⟩

theorem performs_of_mem (run : Run permitted schema history draft) :
    ∀ step ∈ history, ∃ edited, step.1.Performs step.2 edited := by
  induction run with
  | start =>
      intro step listed
      cases listed
  | next run may performed ih =>
      rw [List.forall_mem_append, List.forall_mem_singleton]
      exact ⟨ih, _, Draft.performs performed⟩

end Run
end FilterQuery
