import FilterQuery.Proofs.Keeping
import FilterQuery.Proofs.QuotedValues
import FilterQuery.Proofs.SessionSafety

namespace FilterQuery

variable {schema : Schema} {draft edited : Draft} {slot : Slot} {index : Nat}

/-- Whether a slot holds a value, or what is typed for one, with anything between the quotes. -/
def Slot.HasContent (slot : Slot) : Prop :=
  slot.isValueSlot = true ∧ ∃ value, Text.Encloses slot.text value ∧ value ≠ ""

/-- Whether a slot holds a value, or what is typed for one, with nothing between single quotes. -/
def Slot.IsSingleQuotes (slot : Slot) : Prop :=
  slot.isValueSlot = true ∧ slot.text = "''"

theorem Slot.KeepsQuotes.encloses (kept : slot.KeepsQuotes) (isValue : slot.isValueSlot = true) :
    ∃ value, Text.Encloses slot.text value := by
  cases slot with
  | pending candidates text =>
      have waits : candidates = .valueOnly := beq_iff_eq.mp isValue
      rwa [Slot.KeepsQuotes, if_pos waits] at kept
  | resolved token =>
      cases token with
      | value raw => exact kept
      | field | operator | combinator | bracket => cases isValue

theorem isProtected_iff (kept : slot.KeepsQuotes) :
    Draft.isProtected slot = true ↔ slot.HasContent ∨ slot.IsSingleQuotes := by
  have guarded : Draft.isProtected slot = true ↔
      slot.isValueSlot = true ∧ slot.text ≠ "" ∧ slot.text ≠ emptyValue := by
    simp [Draft.isProtected]
  rw [guarded]
  constructor
  · rintro ⟨isValue, -, notEmpty⟩
    obtain ⟨value, encloses⟩ := kept.encloses isValue
    by_cases empty : value = ""
    · subst empty
      exact .inr ⟨isValue, (Text.encloses_empty_iff.mp encloses).resolve_left notEmpty⟩
    · exact .inl ⟨isValue, value, encloses, empty⟩
  · rintro (⟨isValue, value, encloses, holds⟩ | ⟨isValue, single⟩)
    · refine ⟨isValue, encloses.ne_empty, fun empty => holds ?_⟩
      exact encloses.unique (Text.encloses_empty_iff.mpr (.inl empty))
    · rw [single]
      exact ⟨isValue, nofun, nofun⟩

/-- Whether a draft is another one without one of its slots.  The slot behind it may have other
candidates.  Where the slot was the only one, there is a new one. -/
structure Draft.Lacks (edited : Draft) (index : Nat) (draft : Draft) : Prop where
  schema : edited.schema = draft.schema
  tokens : edited.tokens =
    if isPendingAt draft.slots index then draft.tokens
    else draft.tokens.eraseIdx (tokensBefore draft.slots index)
  slots :
    if draft.size = 1 then edited.slots = [.fresh .initial]
    else ∃ behind, edited.slots = draft.slots.take index ++ behind ∧
      List.Forall₂ Slot.Kept (draft.slots.drop (index + 1)) behind ∧
      behind.tail = draft.slots.drop (index + 2)

theorem Draft.Performs.lacks (performs : draft.Performs (.deleteSlot index) edited) :
    edited.Lacks index draft := by
  refine ⟨performs.schema, performs.rewrites, ?_⟩
  cases performs with
  | takes taken => cases taken
  | @removes front back slot split unprotected =>
      have alone : draft.size = 1 ↔ front = [] ∧ back = [] := by
        rw [Draft.size, split, List.length_append, List.length_cons, ← List.length_eq_zero_iff,
          ← List.length_eq_zero_iff]
        omega
      rw [split, withoutSlot_append]
      simp only [alone, List.take_left]
      split
      next => rfl
      next =>
        refine ⟨_, rfl, ?_, ?_⟩
        · rw [drop_succ_length_append]
          exact kept_reseedFirst _ back
        · rw [Nat.add_succ, ← List.tail_drop, drop_succ_length_append]
          cases back <;> rfl

theorem Draft.deleteSlot_cases (found : draft.slots[index]? = some slot)
    (kept : slot.KeepsQuotes) :
    (slot.HasContent ∨ slot.IsSingleQuotes) ∧
        draft.deleteSlot index = .error (.protectedDeletion index) ∨
      ¬ (slot.HasContent ∨ slot.IsSingleQuotes) ∧
        ∃ edited, draft.deleteSlot index = .ok edited ∧ edited.Lacks index draft := by
  rw [← isProtected_iff kept]
  have held : draft.slot index = .ok slot := by rw [Draft.slot, found]
  cases guard : Draft.isProtected slot with
  | true => exact .inl ⟨rfl, by simp [deleteSlot, held, guard]⟩
  | false =>
      have removed : draft.deleteSlot index =
          .ok { draft with slots := withoutSlot draft.slots index } := by
        simp [deleteSlot, held, guard]
      have performed : draft.perform (.deleteSlot index) = .ok _ := removed
      exact .inr ⟨Bool.false_ne_true, _, removed, (performs performed).lacks⟩

namespace Session

variable {session : Session}

/-- Whether a session comes of some intents in a new one. -/
def IsReached (schema : Schema) (session : Session) : Prop :=
  ∃ intents, (new schema).afterAll intents = session

theorem IsReached.focused (reached : session.IsReached schema) :
    ∃ slot, session.draft.slots[session.focus]? = some slot ∧ slot.KeepsQuotes := by
  obtain ⟨intents, rfl⟩ := reached
  have within := isFocused_afterAll (isFocused_new schema) intents
  have begun : Run (fun _ => true) schema [] (new schema).draft := .start
  obtain ⟨history, run⟩ := run_afterAll begun intents
  exact ⟨_, List.getElem?_eq_getElem within, run.keepsQuotes _ (List.getElem_mem within)⟩

/-- In a session, the focused slot cannot be removed exactly if it holds a value that is not empty,
or an empty one between single quotes.  In all other cases it is removed, and nothing else is. -/
theorem delete_protects (reached : session.IsReached schema) :
    ∃ slot, session.draft.slots[session.focus]? = some slot ∧
      ((perform .delete).on session = (.error (.protectedDeletion session.focus), session) ↔
        slot.HasContent ∨ slot.IsSingleQuotes) ∧
      (¬ (slot.HasContent ∨ slot.IsSingleQuotes) → ∃ after : Session,
        (perform .delete).on session = (.ok after.focus, after) ∧
        after.draft.Lacks session.focus session.draft ∧
        after.focus = min (session.focus - 1) (lastIndex after.draft)) := by
  obtain ⟨slot, found, kept⟩ := reached.focused
  refine ⟨slot, found, ?_⟩
  rw [perform_on, apply]
  rcases Draft.deleteSlot_cases found kept with
    ⟨guarded, refused⟩ | ⟨unguarded, edited, removed, lacks⟩
  · rw [refused]
    exact ⟨iff_of_true rfl guarded, fun unguarded => absurd guarded unguarded⟩
  · rw [removed]
    exact ⟨iff_of_false (fun same => by cases same) unguarded, fun _ => ⟨_, rfl, lacks, rfl⟩⟩

/-- A session in which a text has been typed for a value. -/
def typedSession (text : String) : Session :=
  ⟨⟨.builtin,
    [.resolved (.field "text"), .resolved (.operator "in"), .pending .valueOnly text]⟩, 2⟩

theorem isReached_typedSession (text : String) (quoted : Text.isQuoted text = true) :
    (typedSession text).IsReached .builtin := by
  have selected : (new .builtin).afterAll [.select "text" .field, .select "in" .operator] =
      typedSession emptyValue := by decide +kernel
  have typed : (perform (.editValue text)).on (typedSession emptyValue) =
      (.ok 2, typedSession text) := by
    rw [perform_on]
    simp only [apply, typedSession, Draft.editValue, Draft.slot, quoted]
    rfl
  refine ⟨[.select "text" .field, .select "in" .operator] ++ [.editValue text], ?_⟩
  rw [afterAll, List.foldl_concat, ← afterAll, selected, typed]

/-- A value between single quotes is protected, and an empty one between double quotes is not. -/
theorem typedSession_delete_protects :
    (perform .delete).on (typedSession "'a'") =
        (.error (.protectedDeletion 2), typedSession "'a'") ∧
      ∃ after, (perform .delete).on (typedSession emptyValue) = (.ok 1, after) ∧
        after.draft.slots = [.resolved (.field "text"), .resolved (.operator "in")] := by
  constructor
  · obtain ⟨slot, found, protects, -⟩ := delete_protects (isReached_typedSession "'a'" rfl)
    cases found
    exact protects.mpr (.inl ⟨rfl, "a", ⟨'\'', rfl, rfl⟩, nofun⟩)
  · obtain ⟨slot, found, -, removes⟩ := delete_protects (isReached_typedSession emptyValue rfl)
    cases found
    have unguarded : ¬ ((Slot.pending .valueOnly emptyValue).HasContent ∨
        (Slot.pending .valueOnly emptyValue).IsSingleQuotes) := by
      rintro (⟨-, value, encloses, holds⟩ | ⟨-, single⟩)
      · exact holds (encloses.unique (Text.encloses_empty_iff.mpr (.inl rfl)))
      · exact absurd single (by decide)
    obtain ⟨after, done, lacks, focus⟩ := removes unguarded
    obtain ⟨behind, slots, kept, -⟩ := lacks.slots
    cases kept
    have placed : after.focus = 1 := by
      rw [focus, lastIndex, Draft.size, slots]
      rfl
    exact ⟨after, placed ▸ done, slots⟩

/-- Nothing stands between the quotes of the focused slot, and yet the slot cannot be removed. -/
theorem singleQuotes_protected :
    (typedSession "''").IsReached .builtin ∧
      ∃ slot, (typedSession "''").draft.slots[(typedSession "''").focus]? = some slot ∧
        Text.Encloses slot.text "" ∧ ¬ slot.HasContent ∧
        (perform .delete).on (typedSession "''") =
          (.error (.protectedDeletion 2), typedSession "''") := by
  refine ⟨isReached_typedSession _ rfl, _, rfl, Text.encloses_empty_iff.mpr (.inr rfl), ?_, rfl⟩
  rintro ⟨-, value, encloses, holds⟩
  exact holds (encloses.unique (Text.encloses_empty_iff.mpr (.inr rfl)))

end Session
end FilterQuery
