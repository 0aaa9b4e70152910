import FilterQuery.Schema.Basic
import FilterQuery.SlotContext

namespace FilterQuery

/-! What can be wrong with the slots of a draft. -/

inductive Fault where
  | unbalancedGroup (bracket : Bracket)
  | incompleteRule (missing : TokenType)
  | illegalAdjacency (previous : Option TokenType) (found : TokenType)
  | operatorMismatch (field operator : String)
  | leadingCombinator (combinator : Combinator)
  | fieldAfterGroup (field : String)
  | danglingCombinator (combinator : Combinator)
  | mixedCombinators (first found : Combinator)
  | missingCombinator
  | unknownName (type : TokenType) (name : String)
  | unresolvedSlot (text : String)
deriving DecidableEq, Repr, Inhabited

structure Violation where
  index : Nat
  fault : Fault
deriving DecidableEq, Repr, Inhabited

def Fault.message : Fault → String
  | unbalancedGroup bracket => "unbalanced bracket '" ++ bracket.text ++ "'"
  | incompleteRule missing => "rule starting here is missing its " ++ missing.name
  | illegalAdjacency none found => found.name ++ " cannot follow the start of the query"
  | illegalAdjacency (some previous) found => found.name ++ " cannot follow " ++ previous.name
  | operatorMismatch field operator =>
      "operator '" ++ operator ++ "' does not apply to field '" ++ field ++ "'"
  | leadingCombinator combinator => "a group cannot start with " ++ combinator.text
  | fieldAfterGroup field => "field '" ++ field ++ "' directly follows a closed group"
  | danglingCombinator combinator =>
      combinator.text ++ " is not followed by a rule or group"
  | mixedCombinators first found =>
      found.text ++ " mixed with " ++ first.text ++ " in the same group"
  | missingCombinator => "groups need a combinator between them"
  | unknownName type name => "unknown " ++ type.name ++ " '" ++ name ++ "'"
  | unresolvedSlot text => "'" ++ text ++ "' was typed but never selected"

def Violation.message (violation : Violation) : String :=
  "slot " ++ toString violation.index ++ ": " ++ violation.fault.message

/-- What the check carries from slot to slot. -/
structure Inspection where
  scopes : ScopeStack
  /-- The slots of the brackets that are open, the innermost first. -/
  openedAt : List Nat
  /-- The nearest token before, and its slot. -/
  previous : Option (Nat × Token)
  /-- The slot where the unfinished rule started, and what the rule lacks. -/
  openRule : Option (Nat × TokenType)
deriving DecidableEq, Repr, Inhabited

namespace Inspection

def start : Inspection :=
  ⟨.start, [], none, none⟩

def previousToken (state : Inspection) : Option Token :=
  state.previous.map (·.2)

def see (state : Inspection) (index : Nat) (token : Token) : Inspection :=
  { scopes := state.scopes.see token
    openedAt :=
      match token with
      | .bracket .opening => index :: state.openedAt
      | .bracket .closing => state.openedAt.tail
      | _ => state.openedAt
    previous := some (index, token)
    openRule :=
      match token with
      | .field _ => some (index, .operator)
      | .operator _ => state.openRule.map fun rule => (rule.1, .value)
      | .value _ => none
      | _ => state.openRule }

def nameFaults (schema : Schema) : Token → List Fault
  | .field name => if (schema.field? name).isSome then [] else [.unknownName .field name]
  | .operator name => if (schema.operator? name).isSome then [] else [.unknownName .operator name]
  | _ => []

def adjacencyFaults (previous : Option TokenType) (found : TokenType) : List Fault :=
  if (TypeSet.after previous).contains found then [] else [.illegalAdjacency previous found]

/-- An operator that does not apply to the latest field of its scope.  Names that the schema does
not have are reported as unknown and not here. -/
def operatorFaults (schema : Schema) (scopeField : Option String) (name : String) : List Fault :=
  match scopeField with
  | none => []
  | some fieldName =>
      match schema.field? fieldName, schema.operator? name with
      | some field, some _ =>
          if field.operators.contains name then [] else [.operatorMismatch fieldName name]
      | _, _ => []

/-- A combinator at the start of a group, or another one than the scope has. -/
def combinatorFaults (state : Inspection) (found : Combinator) : List Fault :=
  (if state.previousToken = some (.bracket .opening) then [.leadingCombinator found] else []) ++
    match state.scopes.top.combinator with
    | some first => if first = found then [] else [.mixedCombinators first found]
    | none => []

def openingFaults (state : Inspection) : List Fault :=
  match state.previousToken with
  | some (.bracket .closing) => [.missingCombinator]
  | some (.value _) => [.missingCombinator]
  | _ => []

/-- A group that ends after a combinator, or ends though none is open. -/
def closingFaults (state : Inspection) : List Fault :=
  (match state.previousToken with
    | some (.combinator combinator) => [.danglingCombinator combinator]
    | _ => []) ++
    if state.openedAt.isEmpty then [.unbalancedGroup .closing] else []

def placeFaults (schema : Schema) (state : Inspection) : Token → List Fault
  | .field name =>
      if state.previousToken = some (.bracket .closing) then [.fieldAfterGroup name] else []
  | .operator name => operatorFaults schema state.scopes.top.field name
  | .value _ => []
  | .combinator combinator => state.combinatorFaults combinator
  | .bracket .opening => state.openingFaults
  | .bracket .closing => state.closingFaults

def tokenFaults (schema : Schema) (state : Inspection) (token : Token) : List Fault :=
  nameFaults schema token ++
    adjacencyFaults (state.previousToken.map Token.type) token.type ++
    state.placeFaults schema token

/-- What is wrong at the end: a rule without all its parts, a combinator that joins nothing, and
brackets that are still open. -/
def endViolations (state : Inspection) : List Violation :=
  (match state.openRule with
    | some (index, missing) => [⟨index, .incompleteRule missing⟩]
    | none => []) ++
  (match state.previous with
    | some (index, .combinator combinator) => [⟨index, .danglingCombinator combinator⟩]
    | _ => []) ++
  state.openedAt.reverse.map fun index => ⟨index, .unbalancedGroup .opening⟩

def violationsFrom (schema : Schema) (state : Inspection) (index : Nat) :
    List Slot → List Violation
  | [] => state.endViolations
  | slot :: rest =>
      match slot with
      | .pending candidates text =>
          (if text.isEmpty || candidates == .valueOnly then []
            else [⟨index, .unresolvedSlot text⟩]) ++
            violationsFrom schema state (index + 1) rest
      | .resolved token =>
          (state.tokenFaults schema token).map (⟨index, ·⟩) ++
            violationsFrom schema (state.see index token) (index + 1) rest

end Inspection

/-- All violations of a row of slots, in the order of the slots. -/
def validate (schema : Schema) (slots : List Slot) : List Violation :=
  (Inspection.start.violationsFrom schema 0 slots).mergeSort fun first second =>
    first.index ≤ second.index

end FilterQuery
