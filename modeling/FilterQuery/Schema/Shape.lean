import FilterQuery.Schema.Issue
import FilterQuery.Text.Basic

namespace FilterQuery.Schema

inductive Shape where
  /-- Objects with all required members and no others than the properties, each of its own shape.
  The properties are visited in the order in which they are listed. -/
  | object (properties : List (String × Shape)) (required : List String)
  /-- Lists whose items all have a shape, with at least one item if so demanded. -/
  | list (item : Shape) (nonempty : Bool)
  | label
  | identifier
  | oneOf (options : List String)
deriving Repr, Inhabited

def startsIdentifier (c : Char) : Bool :=
  ('a' ≤ c && c ≤ 'z') || c == '_'

/-- Whether a text is an identifier: lower case ASCII letters, digits and underscores, and no digit
at the start. -/
def isIdentifier (text : String) : Bool :=
  match text.toList with
  | [] => false
  | c :: rest =>
      startsIdentifier c && rest.all fun d => startsIdentifier d || Text.isAsciiDigit d

namespace Shape

/-- The keys of members that are none of the properties, in ascending order. -/
def unexpectedKeys (properties : List (String × Shape)) (members : List (String × Json)) :
    List String :=
  (members.map (·.1)).filter fun key => properties.all fun property => property.1 != key

def unexpectedIssues (path keys : List String) : List Issue :=
  if keys.isEmpty then [] else [⟨path, .unexpectedMembers keys⟩]

def missingIssues (path required : List String) (members : List (String × Json)) : List Issue :=
  (required.filter fun key => (Json.member? key members).isNone).map fun key =>
    ⟨path, .missingMember key⟩

mutual

/-- The issues of a value at some place.  First those of its parts, then its own. -/
def issues (path : List String) : Shape → Json → List Issue
  | .object properties required, .object members =>
      propertyIssues path members properties ++
        unexpectedIssues path (unexpectedKeys properties members) ++
        missingIssues path required members
  | .object _ _, value => [⟨path, .wrongType value "object"⟩]
  | .list item nonempty, .array items =>
      (items.zipIdx.flatMap fun (value, index) => issues (path ++ [toString index]) item value) ++
        if nonempty && items.isEmpty then [⟨path, .noItems (.array items)⟩] else []
  | .list _ _, value => [⟨path, .wrongType value "array"⟩]
  | .label, .string text =>
      if text.isEmpty then [⟨path, .noCharacters (.string text)⟩] else []
  | .label, value => [⟨path, .wrongType value "string"⟩]
  | .identifier, .string text =>
      if isIdentifier text then [] else [⟨path, .notIdentifier (.string text)⟩]
  | .identifier, value => [⟨path, .wrongType value "string"⟩]
  | .oneOf options, .string text =>
      if options.contains text then [] else [⟨path, .notOneOf (.string text) options⟩]
  | .oneOf options, value => [⟨path, .notOneOf value options⟩]

def propertyIssues (path : List String) (members : List (String × Json)) :
    List (String × Shape) → List Issue
  | [] => []
  | (key, shape) :: rest =>
      (match Json.member? key members with
        | some value => issues (path ++ [key]) shape value
        | none => []) ++ propertyIssues path members rest

end

def field : Shape :=
  .object
    [("label", .label), ("name", .identifier), ("operators", .list .label false),
      ("valueKind", .oneOf ["text", "date"])]
    ["name", "label", "valueKind"]

def operator : Shape :=
  .object
    [("family", .oneOf ["text", "comparison"]), ("label", .label), ("name", .label)]
    ["name", "label", "family"]

def document : Shape :=
  .object [("fields", .list field true), ("operators", .list operator true)] ["fields"]

end Shape
end FilterQuery.Schema
