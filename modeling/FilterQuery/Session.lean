import FilterQuery.Draft.Edit

namespace FilterQuery

inductive Intent where
  | focus (index : Nat)
  | moveLeft
  | moveRight
  /-- Take an entry of the list that the focused slot offers for some typed text. -/
  | accept (choice : Nat) (typed : String)
  | select (name : String) (type : TokenType)
  | commitValue (text : String)
  | editValue (text : String)
  | insertGroup
  | delete
deriving DecidableEq, Repr, Inhabited

/-- A draft and the index of the focused slot. -/
structure Session where
  draft : Draft
  focus : Nat
deriving DecidableEq, Repr, Inhabited

namespace Session

def new (schema : Schema) : Session :=
  ⟨.new schema, 0⟩

def lastIndex (draft : Draft) : Nat :=
  draft.size - 1

def suggestions (session : Session) (typed : String) : Except EditError (List Suggestion) :=
  session.draft.suggest session.focus typed

/-- Takes a token at the focused slot and goes on to the next. -/
def take (session : Session) (name : String) (type : TokenType) : Except EditError Session :=
  (session.draft.resolve session.focus name type).map fun draft => ⟨draft, session.focus + 1⟩

/-- Does what the user wants, or says why it cannot be done. -/
def apply (session : Session) : Intent → Except EditError Session
  | .focus index => (session.draft.slot index).map fun _ => { session with focus := index }
  | .moveLeft => .ok { session with focus := session.focus - 1 }
  | .moveRight =>
      .ok { session with focus := min (session.focus + 1) (lastIndex session.draft) }
  | .accept choice typed =>
      match session.suggestions typed with
      | .error error => .error error
      | .ok offered =>
          match offered[choice]? with
          | some entry => session.take entry.name entry.type
          | none => .error (.suggestionOutOfRange session.focus choice offered.length)
  | .select name type => session.take name type
  | .commitValue text =>
      match session.draft.editValue session.focus (Text.quote text) with
      | .error error => .error error
      | .ok edited =>
          (edited.commitValue session.focus).map fun draft => ⟨draft, session.focus + 1⟩
  | .editValue text =>
      (session.draft.editValue session.focus text).map fun draft => { session with draft }
  | .insertGroup =>
      (session.draft.insertGroup session.focus).map fun edited => ⟨edited.1, edited.2⟩
  | .delete =>
      (session.draft.deleteSlot session.focus).map fun draft =>
        ⟨draft, min (session.focus - 1) (lastIndex draft)⟩

def finish (session : Session) : Except EditError RuleGroup :=
  session.draft.ruleGroup

end Session
end FilterQuery
