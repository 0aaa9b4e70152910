import FilterQuery.Proofs.Outline
import FilterQuery.Proofs.SchemaParts

namespace FilterQuery

def RuleNode.IsFilled (node : RuleNode) : Prop :=
  ∀ inner ∈ node.groups, inner.members ≠ []

/-- Whether no group at any depth inside a group is empty. -/
def RuleGroup.IsFilled (group : RuleGroup) : Prop :=
  ∀ inner ∈ RuleNode.groupsOfAll group.members, inner.members ≠ []

def OpenGroup.IsFilled (group : OpenGroup) : Prop :=
  ∀ node ∈ group.members, node.IsFilled

theorem RuleNode.mem_groupsOfAll_iff {nodes : List RuleNode} {inner : RuleGroup} :
    inner ∈ groupsOfAll nodes ↔ ∃ node ∈ nodes, inner ∈ node.groups := by
  induction nodes with
  | nil => simp [groupsOfAll]
  | cons node rest ih => simp [groupsOfAll, ih]

theorem RuleGroup.isFilled_iff {group : RuleGroup} :
    group.IsFilled ↔ ∀ node ∈ group.members, node.IsFilled := by
  simp only [IsFilled, RuleNode.IsFilled, RuleNode.mem_groupsOfAll_iff]
  constructor
  · intro filled node listed inner within
    exact filled inner ⟨node, listed, within⟩
  · rintro filled inner ⟨node, listed, within⟩
    exact filled node listed inner within

theorem RuleNode.isFilled_rule (leaf : Rule) : (RuleNode.rule leaf).IsFilled := by
  intro inner within
  cases within

theorem RuleGroup.IsFilled.toNode {group : RuleGroup} (filled : group.IsFilled)
    (nonempty : group.members ≠ []) : group.toNode.IsFilled :=
  List.forall_mem_cons.mpr ⟨nonempty, filled⟩

namespace OpenGroup

variable {current : OpenGroup} {node : RuleNode}

theorem isFilled_blank : blank.IsFilled := by
  intro node listed
  cases listed

theorem IsFilled.cons (filled : current.IsFilled) (more : node.IsFilled) (pending : PartialRule) :
    IsFilled ⟨current.combinator, node :: current.members, pending⟩ :=
  List.forall_mem_cons.mpr ⟨more, filled⟩

theorem IsFilled.finish (filled : current.IsFilled) : current.finish.IsFilled := by
  rw [RuleGroup.isFilled_iff]
  intro node listed
  exact filled node (List.mem_reverse.mp listed)

theorem IsFilled.addGroup {inner : RuleGroup} (filled : current.IsFilled)
    (within : inner.IsFilled) : (current.addGroup inner).IsFilled := by
  unfold OpenGroup.addGroup
  split
  next => exact filled
  next nonempty =>
    exact filled.cons (within.toNode fun empty => nonempty (List.isEmpty_iff.mpr empty)) _

theorem IsFilled.see (filled : current.IsFilled) (token : Token) :
    (current.see token).IsFilled := by
  cases token with
  | value raw =>
      rw [OpenGroup.see]
      unfold OpenGroup.addValue
      dsimp only
      split
      next rule _ => exact filled.cons (RuleNode.isFilled_rule rule) _
      next => exact filled
  | field | operator | combinator | bracket => exact filled

end OpenGroup

namespace RuleGroup

variable {current : OpenGroup} {outer : List OpenGroup}

theorem isFilled_closeAll (filled : current.IsFilled) (around : ∀ group ∈ outer, group.IsFilled) :
    (closeAll current outer).IsFilled := by
  induction outer generalizing current with
  | nil => exact filled.finish
  | cons parent outer ih =>
      obtain ⟨nearest, further⟩ := List.forall_mem_cons.mp around
      exact ih (nearest.addGroup filled.finish) further

theorem isFilled_build (tokens : List Token) (filled : current.IsFilled)
    (around : ∀ group ∈ outer, group.IsFilled) : (build current outer tokens).1.IsFilled := by
  fun_induction build current outer tokens with
  | case1 current outer => exact isFilled_closeAll filled around
  | case2 current outer rest ih =>
      exact ih OpenGroup.isFilled_blank (List.forall_mem_cons.mpr ⟨filled, around⟩)
  | case3 current rest => exact filled.finish
  | case4 current rest parent outer ih =>
      obtain ⟨nearest, further⟩ := List.forall_mem_cons.mp around
      exact ih (nearest.addGroup filled.finish) further
  | case5 current outer token rest _ _ ih => exact ih (filled.see token) around

/-- No group inside the one that tokens form is empty, whatever the tokens are. -/
theorem isFilled_ofTokens (tokens : List Token) : (ofTokens tokens).IsFilled :=
  isFilled_build tokens OpenGroup.isFilled_blank fun _ listed => nomatch listed

end RuleGroup

/-- Whether a rule asks about a field of a schema by an operator of the field: one that the schema
has, that the field lists, and that is of the family of what the field holds. -/
def Rule.IsDeclared (schema : Schema) (rule : Rule) : Prop :=
  ∃ field ∈ schema.fields, ∃ operator ∈ schema.operators,
    field.name = rule.field ∧ operator.name = rule.operator ∧
      rule.operator ∈ field.operators ∧ operator.family = field.valueKind.family

variable {document : Json} {schema : Schema} {tokens : List Token}

theorem exists_of_mem_consecutiveRules {rule : Rule} (listed : rule ∈ consecutiveRules tokens) :
    ∃ front name operator raw back,
      tokens = front ++ .field name :: .operator operator :: .value raw :: back ∧
        rule = ⟨Text.lower name, operator, Text.unquote raw⟩ := by
  induction tokens with
  | nil => cases listed
  | cons token rest ih =>
      rcases List.mem_append.mp listed with here | later
      · unfold ruleAhead? at here
        split at here
        next name operator raw back same =>
          rw [same]
          exact ⟨[], name, operator, raw, back, rfl, List.mem_singleton.mp here⟩
        next => cases here
      · obtain ⟨front, name, operator, raw, back, rfl, same⟩ := ih later
        exact ⟨token :: front, name, operator, raw, back, rfl, same⟩

/-- What stands together in viable tokens is a rule of the schema.  The names of fields are in
lower case already, so that reading them changes nothing. -/
theorem isDeclared_of_viable (loaded : Schema.ofJson document = .ok schema)
    (viable : Standing.start.Viable schema tokens) {rule : Rule}
    (listed : rule ∈ consecutiveRules tokens) : rule.IsDeclared schema := by
  obtain ⟨front, name, operator, raw, back, rfl, rfl⟩ := exists_of_mem_consecutiveRules listed
  obtain ⟨-, -, admitted, -⟩ := Standing.viable_append.mp viable
  obtain ⟨fieldName, field, previous, found, -, declared⟩ := admitted
  rw [Standing.see_previous] at previous
  cases previous
  have inSchema : field ∈ schema.fields := List.mem_of_find?_eq_some found
  have named : field.name = name := Schema.field?_name found
  have lowered : Text.lower name = name :=
    named ▸ Schema.lower_identifier (Schema.isIdentifier_of_loaded loaded inSchema)
  obtain ⟨known, inTable, family⟩ := Schema.hasOperator_of_loaded loaded inSchema declared
  exact ⟨field, inSchema, known, List.mem_of_find?_eq_some inTable, named.trans lowered.symm,
    Schema.operator?_name inTable, declared, family⟩

/-- A rule group that is handed on, whatever the slots it was formed from, has only rules that the
schema declares and no empty group inside. -/
theorem Draft.ruleGroup_declared (loaded : Schema.ofJson document = .ok schema)
    (slots : List Slot) {group : RuleGroup}
    (taken : (⟨schema, slots⟩ : Draft).ruleGroup = .ok group) :
    (∀ rule ∈ group.leaves, rule.IsDeclared schema) ∧
      ∀ inner ∈ RuleNode.groupsOfAll group.members, inner.members ≠ [] := by
  have valid : (⟨schema, slots⟩ : Draft).violations = [] := violations_of_ruleGroup taken
  obtain ⟨-, viable, -⟩ := validate_eq_nil_iff_viable.mp valid
  obtain ⟨read, same, whole, leaves, -⟩ := Draft.ruleGroup_of_valid valid
  rw [taken] at same
  cases same
  have formed : RuleGroup.ofTokens (resolvedTokens slots) = group := congrArg Prod.fst whole
  refine ⟨?_, ?_⟩
  · intro rule listed
    exact isDeclared_of_viable loaded viable (leaves ▸ listed)
  · rw [← formed]
    exact RuleGroup.isFilled_ofTokens _

/-- A document with its own operators, which it lists for one field and leaves to be filled in for
the other. -/
def stampDocument : Json :=
  .object [
    ("fields", .array [
      .object [("name", .string "note"), ("label", .string "Note"), ("operators", .array [.string "has"]),
        ("valueKind", .string "text")],
      .object [("name", .string "day"), ("label", .string "Day"), ("valueKind", .string "date")]]),
    ("operators", .array [
      .object [("name", .string "has"), ("label", .string "has"), ("family", .string "text")],
      .object [("name", .string "before"), ("label", .string "<"), ("family", .string "comparison")]])]

def stampSlots : List Slot :=
  [.resolved (.bracket .opening), .resolved (.field "note"), .resolved (.operator "has"),
    .resolved (.value "\"a\""), .resolved (.combinator .or), .resolved (.field "day"),
    .resolved (.operator "before"), .resolved (.value "2024-01-01"), .resolved (.bracket .closing),
    .fresh TokenType.group.follow]

theorem stampSlots_declared : ∃ schema group, Schema.ofJson stampDocument = .ok schema ∧
    (⟨schema, stampSlots⟩ : Draft).ruleGroup = .ok group ∧
    group.leaves = [⟨"note", "has", "a"⟩, ⟨"day", "before", "2024-01-01"⟩] ∧
    (∀ rule ∈ group.leaves, rule.IsDeclared schema) ∧
      ∀ inner ∈ RuleNode.groupsOfAll group.members, inner.members ≠ [] := by
  let fields : List Field := [⟨"note", "Note", .text, ["has"]⟩, ⟨"day", "Day", .date, []⟩]
  let operators : List Operator := [⟨"has", "has", .text⟩, ⟨"before", "<", .comparison⟩]
  have loaded : Schema.ofJson stampDocument = .ok (.ofParts fields operators) :=
    Schema.ofJson_of_parts (by decide +kernel) (by decide +kernel) (by decide +kernel)
  have valid : (⟨.ofParts fields operators, stampSlots⟩ : Draft).violations = [] := by
    rw [Draft.violations, validate]
    decide +kernel
  obtain ⟨group, taken, -, leaves, -⟩ := Draft.ruleGroup_of_valid valid
  refine ⟨_, group, loaded, taken, leaves.trans ?_, Draft.ruleGroup_declared loaded _ taken⟩
  decide +kernel

end FilterQuery
