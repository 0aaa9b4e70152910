import FilterQuery.Schema.Basic
import FilterQuery.Session

namespace FilterQuery

/-! Sessions that are changed in place.

Here an intent is a sequence of changes to one session, and an operation that fails leaves behind
what was changed before it failed.  Told in that way it comes to the same as worked out in one step:
an intent that fails leaves the session as it was.
-/

/-- A computation that changes a state in place and may fail on the way.  What was changed before a
failure stays changed. -/
abbrev InPlace (State Answer : Type) : Type :=
  ExceptT EditError (StateM State) Answer

def InPlace.on {State Answer : Type} (action : InPlace State Answer) (state : State) :
    Except EditError Answer × State :=
  action.run.run state

namespace InPlace

variable {State Answer Next : Type} {state : State} {action : InPlace State Answer}
  {next : Answer → InPlace State Next}

@[simp] theorem on_pure {answer : Answer} : on (pure answer) state = (.ok answer, state) := rfl

@[simp] theorem on_throw {error : EditError} :
    on (throw error : InPlace State Answer) state = (.error error, state) := rfl

@[simp] theorem on_get : on (get : InPlace State State) state = (.ok state, state) := rfl

@[simp] theorem on_set {changed : State} :
    on (set changed : InPlace State PUnit) state = (.ok ⟨⟩, changed) := rfl

@[simp] theorem on_modify {change : State → State} :
    on (modify change : InPlace State PUnit) state = (.ok ⟨⟩, change state) := rfl

@[simp] theorem on_bind : on (action >>= next) state =
    match on action state with
    | (.ok answer, left) => on (next answer) left
    | (.error error, left) => (.error error, left) := by
  change ExceptT.bindCont next (action.on state).1 (action.on state).2 = _
  rcases action.on state with ⟨answer | error, left⟩
  · rfl
  · rfl

end InPlace

namespace Draft

/-- Works an edit out in full and only then changes the draft. -/
def change {Answer : Type} (edit : Draft → Except EditError (Draft × Answer)) :
    InPlace Draft Answer := do
  match edit (← get) with
  | .ok (edited, answer) =>
      set edited
      return answer
  | .error error => throw error

@[simp] theorem change_on {Answer : Type} {edit : Draft → Except EditError (Draft × Answer)}
    {draft : Draft} : (change edit).on draft =
      match edit draft with
      | .ok (edited, answer) => (.ok answer, edited)
      | .error error => (.error error, draft) := by
  simp only [change, InPlace.on_bind, InPlace.on_get]
  cases edit draft <;> rfl

def resolving (index : Nat) (name : String) (type : TokenType) : InPlace Draft Unit :=
  change fun draft => (draft.resolve index name type).map (·, ())

def committing (index : Nat) : InPlace Draft Unit :=
  change fun draft => (draft.commitValue index).map (·, ())

def rewording (index : Nat) (text : String) : InPlace Draft Unit :=
  change fun draft => (draft.editValue index text).map (·, ())

def grouping (index : Nat) : InPlace Draft Nat :=
  change fun draft => draft.insertGroup index

def deleting (index : Nat) : InPlace Draft Unit :=
  change fun draft => (draft.deleteSlot index).map (·, ())

end Draft

namespace Session

section InPlace

variable {Answer : Type}

def onDraft (action : InPlace Draft Answer) : InPlace Session Answer := fun session =>
  let (answer, draft) := action.on session.draft
  (answer, { session with draft })

/-- Edits a copy of the draft, which takes the place of the draft once all has gone well. -/
def onCopy (action : InPlace Draft Answer) : InPlace Session Answer := do
  let session ← get
  let (answer, copy) := action.on session.draft
  match answer with
  | .ok answer =>
      set { session with draft := copy }
      return answer
  | .error error => throw error

def ask (answer : Except EditError Answer) : InPlace Session Answer :=
  match answer with
  | .ok answer => pure answer
  | .error error => throw error

/-- Does to the draft what the user wants and answers where the focus goes. -/
def edit (session : Session) : Intent → InPlace Session Nat
  | .focus index => do
      let _ ← ask (session.draft.slot index)
      return index
  | .moveLeft => return session.focus - 1
  | .moveRight => return min (session.focus + 1) (lastIndex session.draft)
  | .accept choice typed => do
      let offered ← ask (session.suggestions typed)
      match offered[choice]? with
      | some entry =>
          onDraft (Draft.resolving session.focus entry.name entry.type)
          return session.focus + 1
      | none => throw (.suggestionOutOfRange session.focus choice offered.length)
  | .select name type => do
      onDraft (Draft.resolving session.focus name type)
      return session.focus + 1
  | .commitValue text => do
      onCopy do
        Draft.rewording session.focus (Text.quote text)
        Draft.committing session.focus
      return session.focus + 1
  | .editValue text => do
      onDraft (Draft.rewording session.focus text)
      return session.focus
  | .insertGroup => onDraft (Draft.grouping session.focus)
  | .delete => do
      onDraft (Draft.deleting session.focus)
      return min (session.focus - 1) (lastIndex (← get).draft)

def perform (intent : Intent) : InPlace Session Nat := do
  let focus ← edit (← get) intent
  modify fun session => { session with focus }
  return focus

end InPlace

variable {session : Session} {Answer : Type}

@[simp] theorem onDraft_on {action : InPlace Draft Answer} : (onDraft action).on session =
    ((action.on session.draft).1, { session with draft := (action.on session.draft).2 }) := rfl

@[simp] theorem onCopy_on {action : InPlace Draft Answer} : (onCopy action).on session =
    match action.on session.draft with
    | (.ok answer, copy) => (.ok answer, { session with draft := copy })
    | (.error error, _) => (.error error, session) := by
  simp only [onCopy, InPlace.on_bind, InPlace.on_get]
  rcases action.on session.draft with ⟨answer | error, copy⟩ <;> rfl

/-- Without the copy, a value that cannot stay where it is would be lost to the one that was to
take its place. -/
example :
    let session : Session :=
      ⟨⟨.builtin, [.resolved (.field "text"), .resolved (.value "'a'")]⟩, 1⟩
    let action : InPlace Draft Unit := do
      Draft.rewording 1 "'b'"
      Draft.committing 1
    ((onDraft action).on session).2.draft.tokens = [.field "text", .value "'b'"] ∧
      ((onCopy action).on session).2 = session := by
  decide +kernel

@[simp] theorem ask_on {answer : Except EditError Answer} : (ask answer).on session =
    (answer, session) := by
  cases answer <;> rfl

theorem edit_on (session : Session) (intent : Intent) :
    (edit session intent).on session =
      match session.apply intent with
      | .ok after => (.ok after.focus, { after with focus := session.focus })
      | .error error => (.error error, session) := by
  cases intent with
  | focus index =>
      simp only [edit, apply, InPlace.on_bind, ask_on]
      cases session.draft.slot index <;> rfl
  | moveLeft => rfl
  | moveRight => rfl
  | accept choice typed =>
      simp only [edit, apply, InPlace.on_bind, ask_on]
      cases session.suggestions typed with
      | error error => rfl
      | ok offered =>
          simp only
          cases offered[choice]? with
          | none => rfl
          | some entry =>
              simp only [take, Draft.resolving, InPlace.on_bind, onDraft_on, Draft.change_on]
              cases session.draft.resolve session.focus entry.name entry.type <;> rfl
  | select name type =>
      simp only [edit, apply, take, Draft.resolving, InPlace.on_bind, onDraft_on,
        Draft.change_on]
      cases session.draft.resolve session.focus name type <;> rfl
  | commitValue text =>
      simp only [edit, apply, Draft.rewording, Draft.committing, InPlace.on_bind, onCopy_on,
        Draft.change_on]
      cases session.draft.editValue session.focus (Text.quote text) with
      | error error => rfl
      | ok edited =>
          simp only [Except.map]
          cases edited.commitValue session.focus <;> rfl
  | editValue text =>
      simp only [edit, apply, Draft.rewording, InPlace.on_bind, onDraft_on, Draft.change_on]
      cases session.draft.editValue session.focus text <;> rfl
  | insertGroup =>
      simp only [edit, apply, Draft.grouping, onDraft_on, Draft.change_on]
      cases session.draft.insertGroup session.focus <;> rfl
  | delete =>
      simp only [edit, apply, Draft.deleting, InPlace.on_bind, onDraft_on, Draft.change_on]
      cases session.draft.deleteSlot session.focus <;> rfl

/-- Carried out in place, an intent that fails leaves the session as it was, and one that succeeds
leaves the session that is worked out for it. -/
theorem perform_on (session : Session) (intent : Intent) :
    (perform intent).on session =
      match session.apply intent with
      | .ok after => (.ok after.focus, after)
      | .error error => (.error error, session) := by
  simp only [perform, InPlace.on_bind, InPlace.on_get, edit_on]
  cases session.apply intent <;> rfl

end Session
end FilterQuery
