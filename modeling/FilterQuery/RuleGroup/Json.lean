import FilterQuery.Json.Printer
import FilterQuery.Json.Reader
import FilterQuery.RuleGroup.Basic

namespace FilterQuery

def onlyMember? {κ α : Type} [BEq κ] (key : κ) (members : List (κ × α)) : Option α :=
  match members.filter fun member => member.1 == key with
  | [member] => some member.2
  | _ => none

def Combinator.toJson (combinator : Combinator) : Json :=
  .string combinator.text

def Combinator.ofName? (name : String) : Option Combinator :=
  all.find? fun combinator => combinator.text == name

def Combinator.ofJson? : Json → Option Combinator
  | .string name => ofName? name
  | .object [(name, .null)] => ofName? name
  | _ => none

def Rule.toJson (rule : Rule) : Json :=
  .object [("field", .string rule.field), ("operator", .string rule.operator),
    ("value", .string rule.value)]

def Rule.ofJson? : Json → Option Rule
  | .object members =>
      match onlyMember? "field" members, onlyMember? "operator" members,
        onlyMember? "value" members with
      | some (.string field), some (.string operator), some (.string value) =>
          some ⟨field, operator, value⟩
      | _, _, _ => none
  | .array [.string field, .string operator, .string value] => some ⟨field, operator, value⟩
  | _ => none

namespace RuleNode

mutual

def toJson : RuleNode → Json
  | .rule leaf => leaf.toJson
  | .group combinator members =>
      .object [("combinator", combinator.toJson), ("rules", .array (toJsonItems members))]

def toJsonItems : List RuleNode → List Json
  | [] => []
  | node :: rest => node.toJson :: toJsonItems rest

end

mutual

def ofJson? : Json → Option RuleNode
  | .object members =>
      match Rule.ofJson? (.object members) with
      | some leaf => some (.rule leaf)
      | none =>
          match (onlyMember? "combinator" members).bind Combinator.ofJson?,
            nodesOfMembers members with
          | some combinator, [some nodes] => some (.group combinator nodes)
          | _, _ => none
  | .array [combinator, .array items] =>
      match Combinator.ofJson? combinator, ofItems? items with
      | some combinator, some nodes => some (.group combinator nodes)
      | _, _ => none
  | json => (Rule.ofJson? json).map .rule

def ofItems? : List Json → Option (List RuleNode)
  | [] => some []
  | item :: rest =>
      match ofJson? item, ofItems? rest with
      | some node, some nodes => some (node :: nodes)
      | _, _ => none

def nodesOfMembers : List (String × Json) → List (Option (List RuleNode))
  | [] => []
  | (key, value) :: rest =>
      if key = "rules" then
        (match value with
          | .array items => ofItems? items
          | _ => none) :: nodesOfMembers rest
      else nodesOfMembers rest

end

end RuleNode

namespace RuleGroup

def toJson (group : RuleGroup) : Json :=
  group.toNode.toJson

def compact (group : RuleGroup) : String :=
  group.toJson.compact

def pretty (group : RuleGroup) : String :=
  group.toJson.pretty

def nodesOfJson? : Json → Option (List RuleNode)
  | .array items => RuleNode.ofItems? items
  | _ => none

/-- Reads a group from its two parts as they are written. -/
def ofParts? (combinator nodes : Json.Raw) : Option RuleGroup :=
  let value? (raw : Json.Raw) : Option Json := raw.value? (Json.depthLimit - 1)
  match (value? combinator).bind Combinator.ofJson?, (value? nodes).bind nodesOfJson? with
  | some combinator, some members => some ⟨combinator, members⟩
  | _, _ => none

/-- Reads a group that is not part of another.  Unknown members need no value, but their keys do. -/
def ofRaw? : Json.Raw → Option RuleGroup
  | .object members =>
      if members.all fun member => member.1.isSome then
        match onlyMember? (some "combinator") members, onlyMember? (some "rules") members with
        | some combinator, some nodes => ofParts? combinator nodes
        | _, _ => none
      else none
  | .array [combinator, nodes] => ofParts? combinator nodes
  | _ => none

def read? (text : String) : Option RuleGroup :=
  (Json.Raw.read? text).bind ofRaw?

end RuleGroup
end FilterQuery
