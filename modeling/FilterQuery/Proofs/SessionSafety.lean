import FilterQuery.Proofs.Edits
import FilterQuery.Schema.Basic
import FilterQuery.Session.InPlace

namespace FilterQuery

section Results

variable {α β : Type} {result : Except EditError α} {change : α → β} {changed : β}
  {error : EditError}

theorem ok_of_map_eq_ok (mapped : result.map change = .ok changed) :
    ∃ value, result = .ok value ∧ change value = changed := by
  cases result with
  | ok value => exact ⟨value, rfl, Except.ok.inj mapped⟩
  | error error => cases mapped

theorem error_of_map_eq_error (mapped : result.map change = .error error) :
    result = .error error := by
  cases result with
  | ok value => cases mapped
  | error other => exact congrArg _ (Except.error.inj mapped)

end Results

namespace Draft

variable {draft edited : Draft} {index inside : Nat} {name text : String} {type : TokenType}
  {error : EditError}

theorem length_refit_pos {schema : Schema} {before : List Token} {token : Token}
    {wasPending : Bool} {back behind : List Slot}
    (refits : refit schema before token wasPending back = some behind) : 0 < behind.length := by
  unfold refit at refits
  split at refits
  · cases refits
    exact Nat.zero_lt_one
  · cases refits
    exact Nat.zero_lt_succ _
  · split at refits
    · cases refits
      exact Nat.zero_lt_succ _
    · split at refits
      · cases refits
        exact Nat.zero_lt_succ _
      · cases refits

theorem resolve_size (done : draft.resolve index name type = .ok edited) :
    index + 1 < edited.size := by
  have performed : draft.perform (.resolve index name type) = .ok edited := done
  cases performs performed with
  | takes taken split legal refits =>
      obtain ⟨token, -, same⟩ := Option.map_eq_some_iff.mp taken
      cases same
      have behind := length_refit_pos refits
      simp only [size, List.length_append, List.length_cons]
      omega

theorem commitValue_size (done : draft.commitValue index = .ok edited) :
    index + 1 < edited.size := by
  unfold commitValue at done
  split at done
  · cases done
  · exact resolve_size done

theorem editValue_size (done : draft.editValue index text = .ok edited) :
    edited.size = draft.size := by
  unfold editValue at done
  split at done
  · cases done
  · split at done
    · cases done
    · split at done
      · cases done
      · cases done
        exact List.length_modify _ _ _

theorem insertGroup_size (done : draft.insertGroup index = .ok (edited, inside)) :
    inside < edited.size := by
  unfold insertGroup at done
  split at done
  next => cases done
  next within =>
    simp only at done
    split at done
    · cases done
      simp only [size, withGroup, List.length_append, List.length_cons, List.length_take] at within ⊢
      omega
    · cases done

theorem deleteSlot_size (done : draft.deleteSlot index = .ok edited) : 0 < edited.size := by
  unfold deleteSlot at done
  split at done
  next => cases done
  next slot found =>
    split at done
    next => cases done
    next =>
      cases done
      unfold size withoutSlot
      split
      next => exact Nat.zero_lt_one
      next remains => exact List.length_pos_iff.mpr remains
      next =>
        rw [List.length_append, List.length_cons]
        omega

theorem slot_of_lt (within : index < draft.size) : ∃ slot, draft.slot index = .ok slot :=
  ⟨draft.slots[index], by rw [Draft.slot, List.getElem?_eq_getElem within]⟩

theorem legalValues_of_lt (within : index < draft.size) :
    ∃ legal, draft.legalValues index = .ok legal := by
  obtain ⟨slot, found⟩ := slot_of_lt within
  rw [legalValues, candidateTypes, found]
  exact ⟨_, rfl⟩

theorem suggest_of_lt (within : index < draft.size) :
    ∃ offered, draft.suggest index text = .ok offered := by
  obtain ⟨legal, found⟩ := legalValues_of_lt within
  rw [suggest, suggestMatching, found]
  exact ⟨_, rfl⟩

theorem resolve_error (within : index < draft.size)
    (refused : draft.resolve index name type = .error error) :
    error = .invalidSelection index name type := by
  obtain ⟨legal, found⟩ := legalValues_of_lt within
  simp only [resolve, choose, found] at refused
  split at refused
  next chosen =>
    cases refused
    split at chosen
    · split at chosen <;> cases chosen
      rfl
    · split at chosen <;> cases chosen
      rfl
  next =>
    split at refused <;> cases refused
    rfl

theorem commitValue_error (within : index < draft.size)
    (refused : draft.commitValue index = .error error) :
    ∃ name, error = .invalidSelection index name .value := by
  obtain ⟨slot, found⟩ := slot_of_lt within
  rw [commitValue, found] at refused
  exact ⟨slot.text, resolve_error within refused⟩

theorem editValue_error (within : index < draft.size)
    (refused : draft.editValue index text = .error error) :
    error = .invalidSelection index text .value ∨
      error = .protectedDeletion index ∧ Text.isQuoted text = false := by
  obtain ⟨slot, found⟩ := slot_of_lt within
  simp only [editValue, found] at refused
  split at refused
  next =>
    cases refused
    exact .inl rfl
  next =>
    split at refused
    next bare =>
      cases refused
      exact .inr ⟨rfl, by simpa using bare⟩
    next => cases refused

theorem insertGroup_error (within : index ≤ draft.size)
    (refused : draft.insertGroup index = .error error) :
    error = .invalidSelection index Bracket.opening.text .group := by
  simp only [insertGroup, Nat.not_lt.mpr within, if_false] at refused
  split at refused <;> cases refused
  rfl

theorem deleteSlot_error (within : index < draft.size)
    (refused : draft.deleteSlot index = .error error) : error = .protectedDeletion index := by
  obtain ⟨slot, found⟩ := slot_of_lt within
  simp only [deleteSlot, found] at refused
  split at refused <;> cases refused
  rfl

end Draft

namespace Session

variable {session after : Session} {intent : Intent} {error : EditError}

def IsFocused (session : Session) : Prop :=
  session.focus < session.draft.size

/-- The reasons for which an intent can be refused while the focus is on a slot. -/
def MayRefuse (session : Session) : Intent → EditError → Prop
  | .focus index, error => error = .slotOutOfRange index session.draft.size
  | .moveLeft, _ | .moveRight, _ => False
  | .accept choice _, error =>
      (∃ offered, error = .suggestionOutOfRange session.focus choice offered) ∨
        ∃ name type, error = .invalidSelection session.focus name type
  | .select name type, error => error = .invalidSelection session.focus name type
  | .commitValue _, error => ∃ name, error = .invalidSelection session.focus name .value
  | .editValue text, error =>
      error = .invalidSelection session.focus text .value ∨
        error = .protectedDeletion session.focus
  | .insertGroup, error =>
      error = .invalidSelection session.focus Bracket.opening.text .group
  | .delete, error => error = .protectedDeletion session.focus

theorem isFocused_new (schema : Schema) : (new schema).IsFocused :=
  Nat.zero_lt_one

theorem isFocused_of_apply (focused : session.IsFocused)
    (done : session.apply intent = .ok after) : after.IsFocused := by
  cases intent with
  | focus index =>
      obtain ⟨slot, found, rfl⟩ := ok_of_map_eq_ok done
      obtain ⟨front, back, split, rfl⟩ := Draft.split_of_slot found
      simp [IsFocused, Draft.size, split]
  | moveLeft =>
      cases done
      exact Nat.lt_of_le_of_lt (Nat.sub_le _ _) focused
  | moveRight =>
      cases done
      simp only [IsFocused, lastIndex] at focused ⊢
      omega
  | accept choice typed =>
      simp only [apply] at done
      split at done
      next => cases done
      next =>
        split at done
        next =>
          obtain ⟨draft, taken, rfl⟩ := ok_of_map_eq_ok done
          exact Draft.resolve_size taken
        next => cases done
  | select name type =>
      obtain ⟨draft, taken, rfl⟩ := ok_of_map_eq_ok done
      exact Draft.resolve_size taken
  | commitValue text =>
      simp only [apply] at done
      split at done
      next => cases done
      next =>
        obtain ⟨draft, taken, rfl⟩ := ok_of_map_eq_ok done
        exact Draft.commitValue_size taken
  | editValue text =>
      obtain ⟨draft, reworded, rfl⟩ := ok_of_map_eq_ok done
      exact Nat.lt_of_lt_of_eq focused (Draft.editValue_size reworded).symm
  | insertGroup =>
      obtain ⟨edited, grouped, rfl⟩ := ok_of_map_eq_ok done
      exact Draft.insertGroup_size grouped
  | delete =>
      obtain ⟨draft, removed, rfl⟩ := ok_of_map_eq_ok done
      have remains := Draft.deleteSlot_size removed
      simp only [IsFocused, lastIndex]
      omega

theorem mayRefuse_of_apply (focused : session.IsFocused)
    (refused : session.apply intent = .error error) : session.MayRefuse intent error := by
  cases intent with
  | focus index =>
      have missing := error_of_map_eq_error refused
      unfold Draft.slot at missing
      split at missing
      next => cases missing
      next => exact (Except.error.inj missing).symm
  | moveLeft => cases refused
  | moveRight => cases refused
  | accept choice typed =>
      obtain ⟨offered, found⟩ : ∃ offered, session.draft.suggest session.focus typed =
          .ok offered := Draft.suggest_of_lt focused
      simp only [apply, suggestions, found] at refused
      split at refused
      next => exact .inr ⟨_, _, Draft.resolve_error focused (error_of_map_eq_error refused)⟩
      next =>
        cases refused
        exact .inl ⟨_, rfl⟩
  | select name type => exact Draft.resolve_error focused (error_of_map_eq_error refused)
  | commitValue text =>
      simp only [apply] at refused
      split at refused
      next failed =>
        cases refused
        -- The text is quoted before it is put into the slot, so that its quotes are there.
        rcases Draft.editValue_error focused failed with elsewhere | ⟨-, bare⟩
        · exact ⟨_, elsewhere⟩
        · rw [Text.isQuoted_quote] at bare
          cases bare
      next edited reworded =>
        have kept : session.focus < edited.size :=
          Nat.lt_of_lt_of_eq focused (Draft.editValue_size reworded).symm
        exact Draft.commitValue_error kept (error_of_map_eq_error refused)
  | editValue text =>
      exact (Draft.editValue_error focused (error_of_map_eq_error refused)).imp_right And.left
  | insertGroup =>
      exact Draft.insertGroup_error (Nat.le_of_lt focused) (error_of_map_eq_error refused)
  | delete => exact Draft.deleteSlot_error focused (error_of_map_eq_error refused)

/-- Only going to a slot can fail because the slot is not there. -/
theorem slotOutOfRange_of_mayRefuse {index size : Nat}
    (may : session.MayRefuse intent (.slotOutOfRange index size)) : intent = .focus index := by
  cases intent <;> simp_all [MayRefuse]

/-- Entering a value removes nothing that the user entered. -/
theorem not_mayRefuse_commitValue {index : Nat} {text : String} :
    ¬ session.MayRefuse (.commitValue text) (.protectedDeletion index) := by
  simp [MayRefuse]

variable {schema : Schema} {history : List (Draft × Edit)}

def afterAll (session : Session) (intents : List Intent) : Session :=
  intents.foldl (fun session intent => ((perform intent).on session).2) session

theorem isFocused_perform (focused : session.IsFocused) (intent : Intent) :
    ((perform intent).on session).2.IsFocused := by
  rw [perform_on]
  split
  next done => exact isFocused_of_apply focused done
  next => exact focused

theorem isFocused_afterAll (focused : session.IsFocused) (intents : List Intent) :
    (session.afterAll intents).IsFocused := by
  induction intents generalizing session with
  | nil => exact focused
  | cons intent rest ih => exact ih (isFocused_perform focused intent)

theorem run_of_perform {draft edited : Draft}
    (run : Run (fun _ => true) schema history draft) (edit : Edit)
    (performed : draft.perform edit = .ok edited) :
    ∃ history, Run (fun _ => true) schema history edited :=
  ⟨_, run.next rfl performed⟩

/-- What an intent makes of the draft is what some edits make of it. -/
theorem run_of_apply (run : Run (fun _ => true) schema history session.draft)
    (done : session.apply intent = .ok after) :
    ∃ history, Run (fun _ => true) schema history after.draft := by
  cases intent with
  | focus index =>
      obtain ⟨slot, found, rfl⟩ := ok_of_map_eq_ok done
      exact ⟨_, run⟩
  | moveLeft | moveRight =>
      cases done
      exact ⟨_, run⟩
  | accept choice typed =>
      simp only [apply] at done
      split at done
      next => cases done
      next =>
        split at done
        next entry listed =>
          obtain ⟨draft, taken, rfl⟩ := ok_of_map_eq_ok done
          exact run_of_perform run (.resolve session.focus entry.name entry.type) taken
        next => cases done
  | select name type =>
      obtain ⟨draft, taken, rfl⟩ := ok_of_map_eq_ok done
      exact run_of_perform run (.resolve session.focus name type) taken
  | commitValue text =>
      simp only [apply] at done
      split at done
      next => cases done
      next edited reworded =>
        obtain ⟨draft, taken, rfl⟩ := ok_of_map_eq_ok done
        obtain ⟨_, typed⟩ :=
          run_of_perform run (.editValue session.focus (Text.quote text)) reworded
        exact run_of_perform typed (.commitValue session.focus) taken
  | editValue text =>
      obtain ⟨draft, reworded, rfl⟩ := ok_of_map_eq_ok done
      exact run_of_perform run (.editValue session.focus text) reworded
  | insertGroup =>
      obtain ⟨edited, grouped, rfl⟩ := ok_of_map_eq_ok done
      have performed : session.draft.perform (.insertGroup session.focus) = .ok edited.1 := by
        rw [Draft.perform, grouped]
        rfl
      exact run_of_perform run (.insertGroup session.focus) performed
  | delete =>
      obtain ⟨draft, removed, rfl⟩ := ok_of_map_eq_ok done
      exact run_of_perform run (.deleteSlot session.focus) removed

theorem run_afterAll (run : Run (fun _ => true) schema history session.draft)
    (intents : List Intent) :
    ∃ history, Run (fun _ => true) schema history (session.afterAll intents).draft := by
  induction intents generalizing session history with
  | nil => exact ⟨history, run⟩
  | cons intent rest ih =>
      have stepped : ∃ history,
          Run (fun _ => true) schema history ((perform intent).on session).2.draft := by
        rw [perform_on]
        split
        next done => exact run_of_apply run done
        next => exact ⟨history, run⟩
      obtain ⟨_, run⟩ := stepped
      exact ih run

theorem perform_error {left : Session}
    (refused : (perform intent).on session = (.error error, left)) :
    left = session ∧ session.apply intent = .error error := by
  rw [perform_on] at refused
  split at refused
  next => cases refused
  next failed =>
    cases refused
    exact ⟨rfl, failed⟩

/-- After any intents, done or refused, the draft has a slot and the focus is on one.  An intent
that fails leaves the draft and the focus as they were.  No other intent than going to a slot fails
because there is no such slot, and entering a value does not fail because it would remove text. -/
theorem afterAll_safe (schema : Schema) (intents : List Intent) :
    ((new schema).afterAll intents).draft.slots ≠ [] ∧
    ((new schema).afterAll intents).focus < ((new schema).afterAll intents).draft.size ∧
    ∀ intent error left,
      (perform intent).on ((new schema).afterAll intents) = (.error error, left) →
        left = (new schema).afterAll intents ∧
        (∀ index size, error = .slotOutOfRange index size → intent = .focus index) ∧
        ∀ text index, intent = .commitValue text → error ≠ .protectedDeletion index := by
  have focused := isFocused_afterAll (isFocused_new schema) intents
  refine ⟨List.length_pos_iff.mp (Nat.zero_lt_of_lt focused), focused, ?_⟩
  intro intent error left refused
  obtain ⟨kept, failed⟩ := perform_error refused
  have may := mayRefuse_of_apply focused failed
  refine ⟨kept, ?_, ?_⟩
  · intro index size same
    exact slotOutOfRange_of_mayRefuse (same ▸ may)
  · intro text index entering same
    subst entering same
    exact not_mayRefuse_commitValue may

/-- Intents after which a value stands directly behind a field.  One of them is refused. -/
def strandingIntents : List Intent :=
  [.select "text" .field, .select "in" .operator, .commitValue "a", .focus 7, .focus 1, .delete,
   .focus 1]

theorem strandingIntents_safe :
    ((new .builtin).afterAll strandingIntents).focus <
      ((new .builtin).afterAll strandingIntents).draft.size ∧
    ∃ error left, (perform (.commitValue "b")).on ((new .builtin).afterAll strandingIntents) =
        (.error error, left) ∧
      left = (new .builtin).afterAll strandingIntents ∧
      left.draft.tokens = [.field "text", .value "\"a\""] ∧
      ∀ index, error ≠ .protectedDeletion index := by
  have safe := afterAll_safe .builtin strandingIntents
  have refused : (((new .builtin).afterAll strandingIntents).apply
      (.commitValue "b")).toOption = none := by decide +kernel
  have performed := perform_on ((new .builtin).afterAll strandingIntents) (.commitValue "b")
  cases applied : ((new .builtin).afterAll strandingIntents).apply (.commitValue "b") with
  | ok after =>
      rw [applied] at refused
      cases refused
  | error error =>
      rw [applied] at performed
      obtain ⟨kept, -, protects⟩ := safe.2.2 _ _ _ performed
      exact ⟨safe.2.1, error, _, performed, kept, by decide +kernel, fun index =>
        protects "b" index rfl⟩

end Session
end FilterQuery
