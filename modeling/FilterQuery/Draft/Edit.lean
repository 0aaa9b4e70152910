import FilterQuery.Draft.Suggestion
import FilterQuery.RuleGroup.Builder

namespace FilterQuery.Draft

/-- The token that a name stands for at a slot.  Values may be any text where a value may be
entered; everything else has to be on offer under exactly this name. -/
def choose (draft : Draft) (index : Nat) (name : String) (type : TokenType) :
    Except EditError Token :=
  match draft.legalValues index with
  | .error error => .error error
  | .ok legal =>
      if type = .value then
        if legal.value then .ok (.value (Text.quote name))
        else .error (.invalidSelection index name type)
      else
        match legal.choices.find? fun choice => choice.1.type == type && choice.1.text == name with
        | some choice => .ok choice.1
        | none => .error (.invalidSelection index name type)

/-- Puts a token into a slot and makes the next slot fit.  A missing next slot is appended and a
pending one gets new candidates.  A token that cannot stay is moved behind a new pending slot if
the slot was pending, and otherwise nothing is done. -/
def place (draft : Draft) (index : Nat) (token : Token) : Option Draft :=
  let slots := draft.slots.set index (.resolved token)
  let follow := token.type.follow
  match slots[index + 1]? with
  | none => some { draft with slots := slots ++ [.fresh follow] }
  | some (.pending _ _) =>
      some { draft with slots := slots.modify (index + 1) (Slot.reseed follow) }
  | some (.resolved following) =>
      if follow.contains following.type &&
          ({ draft with slots := slots } : Draft).allows (index + 1) following then
        some { draft with slots := slots }
      else if draft.slots[index]?.any Slot.isPending then
        some { draft with slots := slots.insertIdx (index + 1) (.fresh follow) }
      else none

def resolve (draft : Draft) (index : Nat) (name : String) (type : TokenType) :
    Except EditError Draft :=
  match draft.choose index name type with
  | .error error => .error error
  | .ok token =>
      match draft.place index token with
      | some edited => .ok edited
      | none => .error (.invalidSelection index name type)

def commitValue (draft : Draft) (index : Nat) : Except EditError Draft :=
  match draft.slot index with
  | .error error => .error error
  | .ok slot => draft.resolve index slot.text .value

def withText (text : String) : Slot → Slot
  | .pending candidates _ => .pending candidates text
  | .resolved _ => .resolved (.value text)

/-- Replaces the text of a value slot, quotes included.  The quotes themselves have to stay. -/
def editValue (draft : Draft) (index : Nat) (text : String) : Except EditError Draft :=
  match draft.slot index with
  | .error error => .error error
  | .ok slot =>
      if !slot.isValueSlot then .error (.invalidSelection index text .value)
      else if !Text.isQuoted text then .error (.protectedDeletion index)
      else .ok { draft with slots := draft.slots.modify index (withText text) }

/-- The slots with an empty group put in at an index.  A pending slot behind it gets the candidates
of what follows a bracket. -/
def withGroup (slots : List Slot) (index : Nat) : List Slot :=
  slots.take index ++
    [.resolved (.bracket .opening), .fresh .initial, .resolved (.bracket .closing)] ++
    match slots.drop index with
    | [] => []
    | next :: rest => next.reseed TokenType.group.follow :: rest

/-- Whether the opening bracket that was put in at an index may stand there, and so may the token
directly behind the group. -/
def groupFits (draft : Draft) (index : Nat) : Bool :=
  (typesAfter (draft.slots.take index)).contains .group &&
    draft.allows index (.bracket .opening) &&
    match draft.slots[index + 3]? with
    | some (.resolved token) =>
        TokenType.group.follow.contains token.type && draft.allows (index + 3) token
    | _ => true

/-- Puts an empty group in front of a slot, or at the end.  Gives the index of the slot inside the
group as well. -/
def insertGroup (draft : Draft) (index : Nat) : Except EditError (Draft × Nat) :=
  if draft.size < index then .error (.slotOutOfRange index draft.size)
  else
    let edited : Draft := { draft with slots := withGroup draft.slots index }
    if edited.groupFits index then .ok (edited, index + 1)
    else .error (.invalidSelection index Bracket.opening.text .group)

def isProtected (slot : Slot) : Bool :=
  slot.isValueSlot && !(slot.text.isEmpty || slot.text == emptyValue)

/-- The slots without the one at an index.  One slot always remains, and a pending slot that moves
up gets new candidates. -/
def withoutSlot (slots : List Slot) (index : Nat) : List Slot :=
  match slots.take index, slots.drop (index + 1) with
  | [], [] => [.fresh .initial]
  | before, [] => before
  | before, next :: rest => before ++ next.reseed (typesAfter before) :: rest

def deleteSlot (draft : Draft) (index : Nat) : Except EditError Draft :=
  match draft.slot index with
  | .error error => .error error
  | .ok slot =>
      if isProtected slot then .error (.protectedDeletion index)
      else .ok { draft with slots := withoutSlot draft.slots index }

def ruleGroup (draft : Draft) : Except EditError RuleGroup :=
  match draft.violations with
  | [] => .ok (.ofTokens draft.tokens)
  | violations => .error (.invalid violations)

end FilterQuery.Draft
