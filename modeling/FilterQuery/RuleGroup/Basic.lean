import FilterQuery.Token

namespace FilterQuery

/-- A condition on one field.  The value stands without its quotes. -/
structure Rule where
  field : String
  operator : String
  value : String
deriving DecidableEq, Repr, Inhabited

inductive RuleNode where
  | rule (rule : Rule)
  | group (combinator : Combinator) (members : List RuleNode)
deriving Repr, Inhabited

/-- Rules and groups joined by one combinator. -/
structure RuleGroup where
  combinator : Combinator
  members : List RuleNode
deriving Repr, Inhabited

namespace RuleNode

mutual

def leaves : RuleNode → List Rule
  | .rule leaf => [leaf]
  | .group _ members => leavesOfAll members

def leavesOfAll : List RuleNode → List Rule
  | [] => []
  | node :: rest => node.leaves ++ leavesOfAll rest

end

mutual

/-- The groups at any depth of a node, in the order in which they open. -/
def groups : RuleNode → List RuleGroup
  | .rule _ => []
  | .group combinator members => ⟨combinator, members⟩ :: groupsOfAll members

def groupsOfAll : List RuleNode → List RuleGroup
  | [] => []
  | node :: rest => node.groups ++ groupsOfAll rest

end

end RuleNode

namespace RuleGroup

def empty : RuleGroup :=
  ⟨.and, []⟩

def toNode (group : RuleGroup) : RuleNode :=
  .group group.combinator group.members

def isEmpty (group : RuleGroup) : Bool :=
  group.members.isEmpty

def leaves (group : RuleGroup) : List Rule :=
  RuleNode.leavesOfAll group.members

def ruleCount (group : RuleGroup) : Nat :=
  group.leaves.length

end RuleGroup
end FilterQuery
