import FilterQuery.Draft.Basic
import FilterQuery.Text.Basic
import FilterQuery.Text.LowerCase

namespace FilterQuery

/-- An entry of the list that a slot offers. -/
structure Suggestion where
  name : String
  label : String
  type : TokenType
  /-- The types that the next slot could take once the entry is taken. -/
  nextLegalTypes : TypeSet
deriving DecidableEq, Repr, Inhabited

inductive MatchKey where
  | label
  | labelOrName
deriving DecidableEq, Repr, Inhabited

/-- Whether typed text occurs in the label, or where the key says so in the name.  Case is
ignored. -/
def MatchKey.accepts (key : MatchKey) (typed name label : String) : Bool :=
  let needle := Text.lower typed
  needle.isEmpty || Text.contains (Text.lower label) needle ||
    (key == .labelOrName && Text.contains (Text.lower name) needle)

/-- The tokens on offer with their labels: fields, operators, combinators, brackets.  Values are
typed freely and not offered. -/
def LegalValues.choices (legal : LegalValues) : List (Token × String) :=
  legal.fields.map (fun field => (.field field.name, field.label)) ++
    legal.operators.map (fun operator => (.operator operator.name, operator.label)) ++
    legal.combinators.map (fun combinator => (.combinator combinator, combinator.text)) ++
    legal.brackets.map (fun bracket => (.bracket bracket, bracket.text))

namespace Draft

def typesOpenedBy (draft : Draft) (index : Nat) (token : Token) : TypeSet :=
  let follow := token.type.follow
  let context := SlotContext.around (draft.slots.set index (.resolved token)) (index + 1)
  (LegalValues.of draft.schema follow context).types.inter follow

def suggestion (draft : Draft) (index : Nat) (choice : Token × String) : Suggestion :=
  { name := choice.1.text
    label := choice.2
    type := choice.1.type
    nextLegalTypes := draft.typesOpenedBy index choice.1 }

def suggestMatching (draft : Draft) (index : Nat) (typed : String) (key : MatchKey) :
    Except EditError (List Suggestion) :=
  (draft.legalValues index).map fun legal =>
    (legal.choices.filter fun choice => key.accepts typed choice.1.text choice.2).map
      (draft.suggestion index)

def suggest (draft : Draft) (index : Nat) (typed : String) :
    Except EditError (List Suggestion) :=
  draft.suggestMatching index typed .label

end Draft
end FilterQuery
