import FilterQuery.Document
import FilterQuery.Schema.Basic
import FilterQuery.Schema.Issue
import FilterQuery.Schema.Shape

namespace FilterQuery

def Json.texts? : List Json → Option (List String)
  | [] => some []
  | .string text :: rest => (texts? rest).map (text :: ·)
  | _ => none

def Json.itemsAs? {α : Type} (read? : Json → Option α) : List Json → Option (List α)
  | [] => some []
  | item :: rest =>
      match read? item, itemsAs? read? rest with
      | some value, some values => some (value :: values)
      | _, _ => none

/-- Reads the operators that a field lists, none if the member is not there. -/
def Field.operatorsOf? (members : List (String × Json)) : Option (List String) :=
  match Json.member? "operators" members with
  | none => some []
  | some (.array items) => Json.texts? items
  | some _ => none

def Field.ofJson? : Json → Option Field
  | .object members =>
      match Json.member? "name" members, Json.member? "label" members,
        Json.member? "valueKind" members, operatorsOf? members with
      | some (.string name), some (.string label), some (.string kind), some operators =>
          (ValueKind.ofName? kind).map fun kind => ⟨name, label, kind, operators⟩
      | _, _, _, _ => none
  | _ => none

def Field.toJson (field : Field) : Json :=
  .object
    [("name", .string field.name), ("label", .string field.label),
      ("valueKind", .string field.valueKind.name),
      ("operators", .array (field.operators.map .string))]

def Operator.ofJson? : Json → Option Operator
  | .object members =>
      match Json.member? "name" members, Json.member? "label" members,
        Json.member? "family" members with
      | some (.string name), some (.string label), some (.string family) =>
          (OperatorFamily.ofName? family).map fun family => ⟨name, label, family⟩
      | _, _, _ => none
  | _ => none

def Operator.toJson (operator : Operator) : Json :=
  .object
    [("name", .string operator.name), ("label", .string operator.label),
      ("family", .string operator.family.name)]

namespace Schema

def toJson (schema : Schema) : Json :=
  .object
    [("fields", .array (schema.fields.map Field.toJson)),
      ("operators", .array (schema.operators.map Operator.toJson))]

/-- Reads the operator table of a document, or takes the built-in one if there is none. -/
def operatorsOf? (members : List (String × Json)) : Option (List Operator) :=
  match Json.member? "operators" members with
  | none => some builtinOperators
  | some (.array items) => Json.itemsAs? Operator.ofJson? items
  | some _ => none

def parts? : Json → Option (List Field × List Operator)
  | .object members =>
      match Json.member? "fields" members, operatorsOf? members with
      | some (.array items), some operators =>
          (Json.itemsAs? Field.ofJson? items).map fun fields => (fields, operators)
      | _, _ => none
  | _ => none

def shapeIssues (document : Json) : List Issue :=
  Shape.document.issues [] document.tidy

/-- The schema that a document describes, or every issue found in it.  The parts are checked
against each other only once they have the right shape. -/
def ofJson (document : Json) : Except (List Issue) Schema :=
  match shapeIssues document, parts? document.tidy with
  | [], some (fields, operators) =>
      match consistencyIssues fields operators with
      | [] => .ok (.ofParts fields operators)
      | issues => .error issues
  | issues, _ => .error issues

end Schema

inductive SchemaError where
  | document (error : DocumentError)
  | invalid (issues : List Schema.Issue)
deriving Repr, Inhabited

def SchemaError.message : SchemaError → String
  | document error => error.message
  | invalid issues =>
      "Schema validation failed with " ++ toString issues.length ++ " issue(s)" ++
        String.join (issues.map fun issue => "\n  - " ++ issue.line)

def Schema.load (text : String) (path : Option String) : Except SchemaError Schema :=
  match Document.read text path with
  | .error error => .error (.document error)
  | .ok document =>
      match Schema.ofJson document with
      | .ok schema => .ok schema
      | .error issues => .error (.invalid issues)

end FilterQuery
