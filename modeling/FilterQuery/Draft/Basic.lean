import FilterQuery.Draft.Validation
import FilterQuery.LegalValues

namespace FilterQuery

inductive EditError where
  | invalidSelection (index : Nat) (name : String) (type : TokenType)
  | protectedDeletion (index : Nat)
  | slotOutOfRange (index size : Nat)
  | suggestionOutOfRange (index choice offered : Nat)
  | invalid (violations : List Violation)
deriving DecidableEq, Repr, Inhabited

def EditError.message : EditError → String
  | invalidSelection index name type =>
      "Invalid suggestion '" ++ name ++ "' (" ++ type.name ++ ") at slot " ++ toString index
  | protectedDeletion index =>
      "Value quotes at slot " ++ toString index ++ " can only be removed with the whole value"
  | slotOutOfRange index size =>
      "Slot " ++ toString index ++ " is out of range (sequence has " ++ toString size ++ " slots)"
  | suggestionOutOfRange index choice offered =>
      "Suggestion " ++ toString choice ++ " does not exist at slot " ++ toString index ++ " (" ++
        toString offered ++ " offered)"
  | invalid violations =>
      "Query is not complete: " ++ "; ".intercalate (violations.map Violation.message)

/-- A query that is being edited with the names of a schema. -/
structure Draft where
  schema : Schema
  slots : List Slot
deriving DecidableEq, Repr, Inhabited

/-- The types that may come after some slots: those that may follow the nearest token. -/
def typesAfter (slots : List Slot) : TypeSet :=
  .after ((resolvedTokens slots).getLast?.map Token.type)

namespace Draft

def new (schema : Schema) : Draft :=
  ⟨schema, [.fresh .initial]⟩

def size (draft : Draft) : Nat :=
  draft.slots.length

def tokens (draft : Draft) : List Token :=
  resolvedTokens draft.slots

def slot (draft : Draft) (index : Nat) : Except EditError Slot :=
  match draft.slots[index]? with
  | some slot => .ok slot
  | none => .error (.slotOutOfRange index draft.size)

/-- The types that may be taken at a slot.  A resolved slot may be given any type that could follow
the token before it. -/
def candidateTypes (draft : Draft) (index : Nat) : Except EditError TypeSet :=
  (draft.slot index).map fun slot =>
    match slot with
    | .pending candidates _ => candidates
    | .resolved _ => typesAfter (draft.slots.take index)

def legalValues (draft : Draft) (index : Nat) : Except EditError LegalValues :=
  (draft.candidateTypes index).map fun candidates =>
    .of draft.schema candidates (.around draft.slots index)

def allows (draft : Draft) (index : Nat) (token : Token) : Bool :=
  match draft.legalValues index with
  | .ok legal => legal.allows token
  | .error _ => false

def violations (draft : Draft) : List Violation :=
  validate draft.schema draft.slots

end Draft
end FilterQuery
