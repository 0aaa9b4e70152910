import FilterQuery.Json.Printer
import FilterQuery.Schema.Basic
import FilterQuery.Text.Basic

namespace FilterQuery.Schema

inductive IssueCause where
  | wrongType (value : Json) (expected : String)
  | notOneOf (value : Json) (options : List String)
  | notIdentifier (value : Json)
  | noCharacters (value : Json)
  | noItems (value : Json)
  | missingMember (key : String)
  | unexpectedMembers (keys : List String)
  | duplicateOperator (name : String)
  | duplicateField (name : String)
  /-- An operator that is not in the table, and the name in the table that is most like it. -/
  | unknownOperator (name field : String) (closest : Option String)
  | otherFamily (name : String) (family : OperatorFamily) (field : String)
      (expected : OperatorFamily)
deriving Repr, Inhabited

/-- A cause, and the way from the root of the document to the place where it was found. -/
structure Issue where
  path : List String
  cause : IssueCause
deriving Repr, Inhabited

def identifierPattern : String := "^[a-z_][a-z0-9_]*$"

def quotedKey (key : String) : String :=
  "'" ++ key ++ "'"

def IssueCause.message : IssueCause → String
  | wrongType value expected =>
      value.compact ++ " is not of type " ++ (Json.string expected).compact
  | notOneOf value options =>
      value.compact ++ " is not one of " ++ (Json.array (options.map .string)).compact
  | notIdentifier value => value.compact ++ " does not match \"" ++ identifierPattern ++ "\""
  | noCharacters value => value.compact ++ " is shorter than 1 character"
  | noItems value => value.compact ++ " has less than 1 item"
  | missingMember key => (Json.string key).compact ++ " is a required property"
  | unexpectedMembers keys =>
      "Additional properties are not allowed (" ++ ", ".intercalate (keys.map quotedKey) ++
        (if keys.length = 1 then " was unexpected)" else " were unexpected)")
  | duplicateOperator name => "Duplicate operator name: '" ++ name ++ "'"
  | duplicateField name => "Duplicate field name: '" ++ name ++ "'"
  | unknownOperator name field _ =>
      "Unknown operator '" ++ name ++ "' on field '" ++ field ++ "'"
  | otherFamily name family field expected =>
      "Operator '" ++ name ++ "' is a " ++ family.name ++ " operator but field '" ++ field ++
        "' takes " ++ expected.name ++ " operators"

def missingAdvice : String := "Add the missing property"

def optionAdvice : String :=
  "valueKind must be 'text' or 'date'; family must be 'text' or 'comparison'"

def identifierAdvice : String :=
  "Field names are lower-case identifiers such as 'created_date'"

/-- Advice for unexpected members whose keys name one of three rules of document shapes, the first
of the three that occurs in a key. -/
def adviceForKeys (keys : List String) : Option String :=
  let named (rule : String) : Bool := keys.any fun key => Text.contains key rule
  if named "Required" then some missingAdvice
  else if named "Enum" then some optionAdvice
  else if named "Pattern" then some identifierAdvice
  else none

def IssueCause.suggestion : IssueCause → Option String
  | notOneOf _ _ => some optionAdvice
  | notIdentifier _ => some identifierAdvice
  | missingMember _ => some missingAdvice
  | unexpectedMembers keys => adviceForKeys keys
  | duplicateOperator _ => some "Operator names must be unique"
  | duplicateField _ => some "Field names must be unique"
  | unknownOperator _ _ closest => closest.map fun name => "Did you mean '" ++ name ++ "'?"
  | _ => none

namespace Issue

def message (issue : Issue) : String :=
  issue.cause.message

def suggestion (issue : Issue) : Option String :=
  issue.cause.suggestion

/-- The place of an issue as a JSON pointer.  The root of the document is not named. -/
def location (issue : Issue) : Option String :=
  if issue.path.isEmpty then none else some (String.join (issue.path.map ("/" ++ ·)))

def line (issue : Issue) : String :=
  match issue.location with
  | some location => location ++ ": " ++ issue.message
  | none => issue.message

end Issue

def duplicateIssues (collection : String) (cause : String → IssueCause) (seen : List String)
    (index : Nat) : List String → List Issue
  | [] => []
  | name :: rest =>
      if seen.contains name then
        ⟨[collection, toString index, "name"], cause name⟩ ::
          duplicateIssues collection cause seen (index + 1) rest
      else duplicateIssues collection cause (name :: seen) (index + 1) rest

/-- The name in the operator table that is most like a name, the first of several. -/
def closestOperator (name : String) (operators : List Operator) : Option String :=
  let near := (operators.map Operator.name).filter fun candidate =>
    Text.isNear (Text.editDistance name candidate) name candidate
  Text.leastBy (Text.editDistance name) near

def operatorIssues (operators : List Operator) (field : Field) (path : List String)
    (name : String) : List Issue :=
  match operators.find? fun operator => operator.name == name with
  | none => [⟨path, .unknownOperator name field.name (closestOperator name operators)⟩]
  | some operator =>
      if operator.family = field.valueKind.family then []
      else [⟨path, .otherFamily name operator.family field.name field.valueKind.family⟩]

def fieldIssues (operators : List Operator) (field : Field) (index : Nat) : List Issue :=
  field.operators.zipIdx.flatMap fun (name, place) =>
    operatorIssues operators field ["fields", toString index, "operators", toString place] name

def consistencyIssues (fields : List Field) (operators : List Operator) : List Issue :=
  duplicateIssues "operators" .duplicateOperator [] 0 (operators.map Operator.name) ++
    duplicateIssues "fields" .duplicateField [] 0 (fields.map Field.name) ++
    fields.zipIdx.flatMap fun (field, index) => fieldIssues operators field index

end FilterQuery.Schema
