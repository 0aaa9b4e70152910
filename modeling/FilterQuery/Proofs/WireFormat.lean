import FilterQuery.Proofs.JsonText
import FilterQuery.RuleGroup.Json

namespace FilterQuery

theorem Combinator.ofName?_text (combinator : Combinator) :
    ofName? combinator.text = some combinator := by
  cases combinator <;> decide

@[simp] theorem Combinator.ofJson?_toJson (combinator : Combinator) :
    ofJson? combinator.toJson = some combinator :=
  combinator.ofName?_text

@[simp] theorem Rule.ofJson?_toJson (rule : Rule) : ofJson? rule.toJson = some rule := by
  simp [Rule.toJson, Rule.ofJson?, onlyMember?]

namespace RuleNode

mutual

theorem ofJson?_toJson (node : RuleNode) : ofJson? node.toJson = some node := by
  match node with
  | .rule leaf =>
      have read := leaf.ofJson?_toJson
      simp only [Rule.toJson] at read
      simp only [toJson, Rule.toJson, ofJson?, read]
  | .group combinator members =>
      have notRule : Rule.ofJson? (toJson (.group combinator members)) = none := by
        simp [toJson, Rule.ofJson?, onlyMember?]
      simp only [toJson] at notRule
      simp [toJson, ofJson?, notRule, onlyMember?, nodesOfMembers, ofItems?_toJsonItems members]

theorem ofItems?_toJsonItems (nodes : List RuleNode) :
    ofItems? (toJsonItems nodes) = some nodes := by
  match nodes with
  | [] => rfl
  | node :: rest =>
      simp only [toJsonItems, ofItems?, ofJson?_toJson node, ofItems?_toJsonItems rest]

end

mutual

theorem numberless_toJson (node : RuleNode) : node.toJson.Numberless := by
  match node with
  | .rule leaf => exact ⟨trivial, trivial, trivial, trivial⟩
  | .group combinator members => exact ⟨trivial, numberless_toJsonItems members, trivial⟩

theorem numberless_toJsonItems (nodes : List RuleNode) :
    Json.NumberlessItems (toJsonItems nodes) := by
  match nodes with
  | [] => trivial
  | node :: rest => exact ⟨numberless_toJson node, numberless_toJsonItems rest⟩

end

end RuleNode

namespace RuleGroup

/-- The two parts of a group are read one level below the group. -/
theorem ofRaw?_raw (group : RuleGroup) : ofRaw? group.toJson.raw =
    if group.toJson.depth ≤ Json.depthLimit then some group else none := by
  obtain ⟨combinator, members⟩ := group
  let nodes : Json := .array (RuleNode.toJsonItems members)
  have parts : ofRaw? (toJson ⟨combinator, members⟩).raw =
      ofParts? combinator.toJson.raw nodes.raw := by
    simp [toJson, toNode, RuleNode.toJson, Json.raw, Json.rawMembers, ofRaw?, onlyMember?, nodes]
  have deep : (toJson ⟨combinator, members⟩).depth = nodes.depth + 1 := by
    simp [toJson, toNode, RuleNode.toJson, Json.depth, Json.depthOfMembers, Combinator.toJson, nodes]
  have named : combinator.toJson.raw.value? (Json.depthLimit - 1) = some combinator.toJson := by
    simp [Combinator.toJson, Json.raw, Json.Raw.value?]
  have read : nodesOfJson? nodes = some members := RuleNode.ofItems?_toJsonItems members
  have same : nodes.depth + 1 ≤ Json.depthLimit ↔ nodes.depth ≤ Json.depthLimit - 1 := by
    unfold Json.depthLimit
    omega
  rw [parts, deep, ofParts?]
  simp only [named, Json.value?_raw _ nodes, same]
  by_cases shallow : nodes.depth ≤ Json.depthLimit - 1 <;> simp [shallow, read]

/-- A rule group is read back from both of its written forms, unless it is nested more deeply than
reading goes. -/
theorem read?_written (group : RuleGroup) :
    read? group.compact = (if group.toJson.depth ≤ Json.depthLimit then some group else none) ∧
      read? group.pretty = if group.toJson.depth ≤ Json.depthLimit then some group else none := by
  have numberless : group.toJson.Numberless := RuleNode.numberless_toJson group.toNode
  refine ⟨?_, ?_⟩
  · rw [read?, compact, Json.raw_read?_compact _ numberless]
    exact group.ofRaw?_raw
  · rw [read?, pretty, Json.raw_read?_pretty _ numberless]
    exact group.ofRaw?_raw

end RuleGroup
end FilterQuery
