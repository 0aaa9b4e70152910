import FilterQuery.Schema.Basic
import FilterQuery.SlotContext

namespace FilterQuery

structure LegalValues where
  fields : List Field
  operators : List Operator
  value : Bool
  combinators : List Combinator
  brackets : List Bracket
deriving DecidableEq, Repr, Inhabited

namespace LegalValues

def types (legal : LegalValues) : TypeSet :=
  ⟨!legal.fields.isEmpty, !legal.operators.isEmpty, legal.value, !legal.combinators.isEmpty,
    !legal.brackets.isEmpty⟩

/-- Whether a token is among the legal ones.  Fields and operators are known by name and any value
will do where a value may be entered. -/
def allows (legal : LegalValues) : Token → Bool
  | .field name => legal.fields.any fun field => field.name == name
  | .operator name => legal.operators.any fun operator => operator.name == name
  | .value _ => legal.value
  | .combinator combinator => legal.combinators.contains combinator
  | .bracket bracket => legal.brackets.contains bracket

/-- Any field of the schema, but not directly after a closing bracket. -/
def legalFields (schema : Schema) (context : SlotContext) : List Field :=
  if context.predecessor = some (.bracket .closing) then [] else schema.fields

def legalOperators (schema : Schema) (context : SlotContext) : List Operator :=
  match context.scopeField.bind schema.field? with
  | some field => schema.operatorsFor field
  | none => []

/-- The combinator of the scope, or any if it has none yet.  None may start a query or a group. -/
def legalCombinators (context : SlotContext) : List Combinator :=
  match context.predecessor with
  | none => []
  | some (.bracket .opening) => []
  | some _ =>
      match context.scopeCombinator with
      | some combinator => [combinator]
      | none => Combinator.all

/-- Whether a group may start here: not directly after a bracket or a value. -/
def mayOpen (context : SlotContext) : Bool :=
  match context.predecessor with
  | some token => token.type != .group && token.type != .value
  | none => true

/-- Whether a group may end here: one is open before the slot, the other slots leave a bracket
unclosed, and no combinator waits for what it joins. -/
def mayClose (context : SlotContext) : Bool :=
  context.closeBefore < context.openBefore && 0 < context.unmatchedElsewhere &&
    match context.predecessor with
    | some token => token.type != .combinator
    | none => true

def legalBrackets (context : SlotContext) : List Bracket :=
  (if mayOpen context then [.opening] else []) ++ (if mayClose context then [.closing] else [])

def of (schema : Schema) (candidates : TypeSet) (context : SlotContext) : LegalValues :=
  { fields := if candidates.contains .field then legalFields schema context else []
    operators := if candidates.contains .operator then legalOperators schema context else []
    value := candidates.contains .value
    combinators := if candidates.contains .combinator then legalCombinators context else []
    brackets := if candidates.contains .group then legalBrackets context else [] }

end LegalValues
end FilterQuery
