import FilterQuery.Token

namespace FilterQuery

def emptyValue : String := "\"\""

/-- A place for one token.  A pending slot knows which types it can take and holds what has been
typed into it.  A resolved slot holds its token. -/
inductive Slot where
  | pending (candidates : TypeSet) (text : String)
  | resolved (token : Token)
deriving DecidableEq, Repr, Inhabited

namespace Slot

/-- The text of a pending slot into which nothing was typed.  A slot that waits for a value starts
with the quotes. -/
def initialText (candidates : TypeSet) : String :=
  if candidates = .valueOnly then emptyValue else ""

def fresh (candidates : TypeSet) : Slot :=
  .pending candidates (initialText candidates)

def token? : Slot → Option Token
  | .pending _ _ => none
  | .resolved token => some token

def isPending : Slot → Bool
  | .pending _ _ => true
  | .resolved _ => false

/-- Whether the slot holds a value or waits for one and nothing else. -/
def isValueSlot : Slot → Bool
  | .pending candidates _ => candidates == .valueOnly
  | .resolved token => token.type == .value

def text : Slot → String
  | .pending _ text => text
  | .resolved token => token.text

/-- The slot with other candidates, if it is pending.  Typed text stays unless the slot starts or
ceases to wait for a value. -/
def reseed (candidates : TypeSet) : Slot → Slot
  | .pending current text =>
      if (current == .valueOnly) == (candidates == .valueOnly) then .pending candidates text
      else .fresh candidates
  | .resolved token => .resolved token

@[simp] theorem token?_reseed {slot : Slot} {candidates : TypeSet} :
    (slot.reseed candidates).token? = slot.token? := by
  cases slot with
  | resolved token => rfl
  | pending current text =>
      simp only [reseed]
      split <;> rfl

end Slot

def resolvedTokens (slots : List Slot) : List Token :=
  slots.filterMap Slot.token?

@[simp] theorem resolvedTokens_nil : resolvedTokens [] = [] := rfl

@[simp] theorem resolvedTokens_cons {slot : Slot} {rest : List Slot} :
    resolvedTokens (slot :: rest) = slot.token?.toList ++ resolvedTokens rest := by
  cases slot <;> rfl

@[simp] theorem resolvedTokens_append (front back : List Slot) :
    resolvedTokens (front ++ back) = resolvedTokens front ++ resolvedTokens back :=
  List.filterMap_append

@[simp] theorem resolvedTokens_map (tokens : List Token) :
    resolvedTokens (tokens.map .resolved) = tokens := by
  induction tokens with
  | nil => rfl
  | cons token rest ih => exact congrArg (token :: ·) ih

end FilterQuery
