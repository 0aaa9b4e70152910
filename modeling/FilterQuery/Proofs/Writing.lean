import FilterQuery.Proofs.Outline
import FilterQuery.Proofs.SchemaParts
import FilterQuery.Proofs.SpacedWords

namespace FilterQuery

/-- Whether a text is a value between two quotes of a kind that does not occur in the value. -/
def IsWrapped (value raw : String) : Prop :=
  ∃ quote, Text.isQuote quote = true ∧ quote ∉ value.toList ∧
    raw.toList = quote :: (value.toList ++ [quote])

/-- A part of a rule group: a node, or some members of one group from its first on. -/
inductive GroupPart where
  | node (node : RuleNode)
  | members (combinator : Combinator) (nodes : List RuleNode)

namespace GroupPart

def nodes : GroupPart → List RuleNode
  | .node single => [single]
  | .members _ several => several

def phrase : GroupPart → TypedPhrase
  | .node _ => .item
  | .members combinator _ => .items combinator

def phraseByRule : GroupPart → TypedPhrase
  | .node _ => .rule
  | .members combinator _ => .ruleFirst combinator

end GroupPart

/-- The tokens that a part of a rule group may be written as. -/
inductive Writes : GroupPart → List Token → Prop
  | rule {leaf : Rule} {raw : String} (wrapped : IsWrapped leaf.value raw) :
      Writes (.node (.rule leaf)) [.field leaf.field, .operator leaf.operator, .value raw]
  | group {combinator : Combinator} {nodes : List RuleNode} {tokens : List Token}
      (inside : Writes (.members combinator nodes) tokens) :
      Writes (.node (.group combinator nodes)) (.bracket .opening :: (tokens ++ [.bracket .closing]))
  | single {combinator : Combinator} {node : RuleNode} {tokens : List Token}
      (only : Writes (.node node) tokens) : Writes (.members combinator [node]) tokens
  | join {combinator : Combinator} {nodes : List RuleNode} {node : RuleNode}
      {tokens last : List Token} (front : Writes (.members combinator nodes) tokens)
      (next : Writes (.node node) last) :
      Writes (.members combinator (nodes ++ [node])) (tokens ++ .combinator combinator :: last)

namespace RuleNode

def isRule : RuleNode → Bool
  | .rule _ => true
  | .group _ _ => false

end RuleNode

/-- Whether a text says a rule group: the words of the group with single blanks between them. -/
def RuleGroup.IsWrittenAs (group : RuleGroup) (text : String) : Prop :=
  ∃ tokens, (group.members = [] ∧ tokens = [] ∨
      Writes (.members group.combinator group.members) tokens) ∧
    text = " ".intercalate (tokens.map Token.text)

/-- Whether a rule is one of a schema and can be written with its names as they are. -/
structure Rule.IsWritable (schema : Schema) (rule : Rule) : Prop where
  declared : ∃ field ∈ schema.fields, field.name = rule.field ∧ rule.operator ∈ field.operators
  plainField : Lexeme.isPlain rule.field.toList = true
  plainOperator : Lexeme.isPlain rule.operator.toList = true
  fieldWord : (lexemes schema rule.field).map Lexeme.kind = [.field]
  operatorWord : (lexemes schema rule.operator).map Lexeme.kind = [.operator]
  quotable : '"' ∉ rule.value.toList ∨ '\'' ∉ rule.value.toList

instance {schema : Schema} {rule : Rule} : Decidable (rule.IsWritable schema) :=
  decidable_of_iff
    ((∃ field ∈ schema.fields, field.name = rule.field ∧ rule.operator ∈ field.operators) ∧
      Lexeme.isPlain rule.field.toList = true ∧ Lexeme.isPlain rule.operator.toList = true ∧
      (lexemes schema rule.field).map Lexeme.kind = [.field] ∧
      (lexemes schema rule.operator).map Lexeme.kind = [.operator] ∧
      ('"' ∉ rule.value.toList ∨ '\'' ∉ rule.value.toList))
    ⟨fun ⟨declared, plainField, plainOperator, fieldWord, operatorWord, quotable⟩ =>
      ⟨declared, plainField, plainOperator, fieldWord, operatorWord, quotable⟩,
    fun writable => ⟨writable.declared, writable.plainField, writable.plainOperator,
      writable.fieldWord, writable.operatorWord, writable.quotable⟩⟩

/-- Whether a rule group can be written.  No group in it is empty or starts with a group, and a
group without two members to join has the combinator that goes without saying. -/
structure RuleGroup.IsWritable (schema : Schema) (group : RuleGroup) : Prop where
  rules : ∀ rule ∈ group.leaves, rule.IsWritable schema
  filled : ∀ inner ∈ RuleNode.groupsOfAll group.members, inner.members ≠ []
  joined : ∀ part ∈ group :: RuleNode.groupsOfAll group.members,
    part.members.length < 2 → part.combinator = .and
  ruleFirst : ∀ inner ∈ RuleNode.groupsOfAll group.members, ∀ first ∈ inner.members.head?,
    first.isRule = true

variable {schema : Schema} {document : Json} {tokens : List Token} {part : GroupPart}
  {combinator : Combinator} {nodes front back : List RuleNode} {node : RuleNode} {rule : Rule}
  {value raw : String}

theorem unquote_of_isWrapped (wrapped : IsWrapped value raw) : Text.unquote raw = value := by
  obtain ⟨quote, isQuote, -, chars⟩ := wrapped
  exact Text.unquote_of_encloses ⟨quote, isQuote, chars⟩

/-- What it takes to read a rule back: its names are those of a rule of the schema and are taken for
themselves wherever they stand. -/
structure Rule.IsReadable (schema : Schema) (rule : Rule) : Prop where
  spelled : ∀ raw, Spells schema .rule [.field rule.field, .operator rule.operator, .value raw]
  lowered : Text.lower rule.field = rule.field
  field : (Token.field rule.field).IsLegible schema false
  operator : (Token.operator rule.operator).IsLegible schema false

theorem Rule.IsWritable.isReadable (loaded : Schema.ofJson document = .ok schema)
    (writable : rule.IsWritable schema) : rule.IsReadable schema := by
  obtain ⟨field, listed, named, declared⟩ := writable.declared
  have found : schema.field? rule.field = some field :=
    named ▸ Schema.field?_of_loaded loaded listed
  have lowered : Text.lower rule.field = rule.field :=
    named ▸ Schema.lower_identifier (Schema.isIdentifier_of_loaded loaded listed)
  obtain ⟨-, isOperator⟩ := plain_name writable.plainOperator writable.operatorWord
  obtain ⟨operator, applies, same⟩ :=
    mem_operatorsFor_iff.mpr ⟨Lexeme.operator?_of_classify isOperator, declared⟩
  refine ⟨?_, lowered, ?_, ?_⟩
  · intro raw
    exact same ▸ .rule found applies
  · exact Token.isLegible_field writable.plainField writable.fieldWord lowered
  · exact Token.isLegible_operator writable.plainOperator writable.operatorWord

/-- Whether some nodes, with what is in them, are read back if they are written. -/
structure Readable (schema : Schema) (nodes : List RuleNode) : Prop where
  rules : ∀ rule ∈ RuleNode.leavesOfAll nodes, rule.IsReadable schema
  joined : ∀ inner ∈ RuleNode.groupsOfAll nodes, inner.members.length < 2 → inner.combinator = .and
  ruleFirst : ∀ inner ∈ RuleNode.groupsOfAll nodes, ∀ first ∈ inner.members.head?,
    first.isRule = true

namespace Readable

theorem append (readable : Readable schema (front ++ back)) :
    Readable schema front ∧ Readable schema back := by
  obtain ⟨rules, joined, ruleFirst⟩ := readable
  simp only [RuleNode.leavesOfAll_append, RuleNode.groupsOfAll_append, List.forall_mem_append]
    at rules joined ruleFirst
  exact ⟨⟨rules.1, joined.1, ruleFirst.1⟩, ⟨rules.2, joined.2, ruleFirst.2⟩⟩

theorem inside (readable : Readable schema [.group combinator nodes]) :
    Readable schema nodes ∧ (nodes.length < 2 → combinator = .and) ∧
      ∀ first ∈ nodes.head?, first.isRule = true := by
  obtain ⟨rules, joined, ruleFirst⟩ := readable
  simp only [RuleNode.leavesOfAll, RuleNode.leaves, RuleNode.groupsOfAll, RuleNode.groups,
    List.append_nil, List.forall_mem_cons] at rules joined ruleFirst
  exact ⟨⟨rules, joined.2, ruleFirst.2⟩, joined.1, ruleFirst.1⟩

end Readable

namespace Writes

theorem nodes_ne_nil (writes : Writes part tokens) : part.nodes ≠ [] := by
  cases writes with
  | join front next => exact List.append_ne_nil_of_right_ne_nil _ (List.cons_ne_nil _ _)
  | rule | group | single => exact List.cons_ne_nil _ _

theorem spells (writes : Writes part tokens) (readable : Readable schema part.nodes) :
    Spells schema part.phrase tokens ∧
      ((∀ first ∈ part.nodes.head?, first.isRule = true) →
        Spells schema part.phraseByRule tokens) := by
  induction writes with
  | @rule leaf raw wrapped =>
      have spelled := (readable.rules leaf List.mem_cons_self).spelled raw
      exact ⟨.ofRule spelled, fun _ => spelled⟩
  | group inside ih =>
      obtain ⟨within, -, ruleFirst⟩ := readable.inside
      -- The grammar of typed queries has no group that starts with a group.
      refine ⟨.group ((ih within).2 ruleFirst), ?_⟩
      intro isRule
      cases isRule _ rfl
  | single only ih =>
      obtain ⟨item, byRule⟩ := ih readable
      exact ⟨.single item, fun isRule => .first (byRule isRule)⟩
  | @join combinator nodes node tokens last front next frontIH nextIH =>
      obtain ⟨before, after⟩ := readable.append
      obtain ⟨items, byRule⟩ := frontIH before
      have item := (nextIH after).1
      have starts : ∀ first ∈ nodes.head?, first ∈ (nodes ++ [node]).head? := by
        intro first isFirst
        rw [List.head?_append, isFirst]
        rfl
      exact ⟨.join items item, fun isRule =>
        .further (byRule fun first isFirst => isRule first (starts first isFirst)) item⟩

theorem derives (writes : Writes part tokens) (readable : Readable schema part.nodes) :
    Derives schema part.phrase.phrase tokens :=
  (writes.spells readable).1.derives

/-- Members are joined by the combinator of their group, or there are no two to be joined. -/
theorem combinatorOf_eq (writes : Writes (.members combinator nodes) tokens)
    (readable : Readable schema nodes) (joined : nodes.length < 2 → combinator = .and) :
    combinatorOf tokens = combinator := by
  cases writes with
  | single only =>
      have nothing : combinatorAhead 0 tokens = none :=
        (only.derives readable).combinatorAhead_leaves
      -- No combinator is written then, and the one that is taken is the one that is meant.
      rw [combinatorOf, nothing]
      exact (joined Nat.one_lt_two).symm
  | join front next =>
      have members := front.derives readable.append.1
      rw [combinatorOf, members.combinatorAhead_join]
      rfl

theorem reads (writes : Writes part tokens) (readable : Readable schema part.nodes) :
    Reads tokens part.nodes := by
  induction writes with
  | @rule leaf raw wrapped =>
      have lowered := (readable.rules leaf List.mem_cons_self).lowered
      have read := reads_rule leaf.field leaf.operator raw
      rwa [lowered, unquote_of_isWrapped wrapped] at read
  | @group combinator nodes tokens inside ih =>
      obtain ⟨within, joined, -⟩ := readable.inside
      have read : Reads _ (groupOf (combinatorOf tokens) nodes) :=
        (ih within).bracket (inside.derives within)
      have filled : nodes.isEmpty = false := List.isEmpty_eq_false_iff.mpr inside.nodes_ne_nil
      rwa [inside.combinatorOf_eq within joined, groupOf, filled, if_neg Bool.false_ne_true] at read
  | single only ih => exact ih readable
  | join front next frontIH nextIH =>
      obtain ⟨before, after⟩ := readable.append
      exact (frontIH before).join (front.derives before) (next.derives after) (nextIH after)

/-- Behind a part the words are read as at the start of a text. -/
theorem legible (writes : Writes part tokens) (readable : Readable schema part.nodes)
    {rest : List Token} (behind : AllLegible schema false rest) :
    AllLegible schema false (tokens ++ rest) := by
  -- A part ends with a value or a bracket, so what follows it does not stand behind an operator.
  induction writes generalizing rest with
  | @rule leaf raw wrapped =>
      have words := readable.rules leaf List.mem_cons_self
      obtain ⟨quote, isQuote, fresh, chars⟩ := wrapped
      exact ⟨words.field, words.operator, Token.isLegible_value chars isQuote fresh, behind⟩
  | group inside ih =>
      have within := readable.inside.1
      rw [List.cons_append, List.append_assoc]
      exact ⟨Token.isLegible_bracket _ _, ih within ⟨Token.isLegible_bracket _ _, behind⟩⟩
  | single only ih => exact ih readable behind
  | join front next frontIH nextIH =>
      obtain ⟨before, after⟩ := readable.append
      rw [List.append_assoc, List.cons_append]
      exact frontIH before ⟨Token.isLegible_combinator _, nextIH after behind⟩

end Writes

mutual

theorem exists_writes_node (node : RuleNode)
    (quotable : ∀ rule ∈ node.leaves, ∃ raw, IsWrapped rule.value raw)
    (filled : ∀ inner ∈ node.groups, inner.members ≠ []) :
    ∃ tokens, Writes (.node node) tokens := by
  cases node with
  | rule leaf =>
      obtain ⟨raw, wrapped⟩ := quotable leaf List.mem_cons_self
      exact ⟨_, .rule wrapped⟩
  | group combinator members =>
      obtain ⟨nonempty, within⟩ := List.forall_mem_cons.mp filled
      obtain ⟨tokens, writes⟩ := exists_writes_members combinator members quotable within nonempty
      exact ⟨_, .group writes⟩

theorem exists_writes_members (combinator : Combinator) (nodes : List RuleNode)
    (quotable : ∀ rule ∈ RuleNode.leavesOfAll nodes, ∃ raw, IsWrapped rule.value raw)
    (filled : ∀ inner ∈ RuleNode.groupsOfAll nodes, inner.members ≠ []) (nonempty : nodes ≠ []) :
    ∃ tokens, Writes (.members combinator nodes) tokens := by
  cases nodes with
  | nil => exact absurd rfl nonempty
  | cons node rest =>
      obtain ⟨quotableFirst, quotableRest⟩ := List.forall_mem_append.mp quotable
      obtain ⟨filledFirst, filledRest⟩ := List.forall_mem_append.mp filled
      obtain ⟨first, writes⟩ := exists_writes_node node quotableFirst filledFirst
      exact exists_writes_further rest (.single writes) quotableRest filledRest

/-- Rows of members grow at their end, so the members in front are carried along. -/
theorem exists_writes_further {combinator : Combinator} {front : List RuleNode}
    {tokens : List Token} (nodes : List RuleNode) (before : Writes (.members combinator front) tokens)
    (quotable : ∀ rule ∈ RuleNode.leavesOfAll nodes, ∃ raw, IsWrapped rule.value raw)
    (filled : ∀ inner ∈ RuleNode.groupsOfAll nodes, inner.members ≠ []) :
    ∃ all, Writes (.members combinator (front ++ nodes)) all := by
  cases nodes with
  | nil => exact ⟨tokens, (List.append_nil front).symm ▸ before⟩
  | cons node rest =>
      obtain ⟨quotableFirst, quotableRest⟩ := List.forall_mem_append.mp quotable
      obtain ⟨filledFirst, filledRest⟩ := List.forall_mem_append.mp filled
      obtain ⟨last, writes⟩ := exists_writes_node node quotableFirst filledFirst
      rw [List.append_cons]
      exact exists_writes_further rest (before.join writes) quotableRest filledRest

end

theorem exists_isWrapped (quotable : '"' ∉ value.toList ∨ '\'' ∉ value.toList) :
    ∃ raw, IsWrapped value raw := by
  rcases quotable with fresh | fresh
  · exact ⟨.ofList ('"' :: (value.toList ++ ['"'])), '"', rfl, fresh, String.toList_ofList⟩
  · exact ⟨.ofList ('\'' :: (value.toList ++ ['\''])), '\'', rfl, fresh, String.toList_ofList⟩

namespace RuleGroup.IsWritable

variable {group : RuleGroup}

theorem readable (loaded : Schema.ofJson document = .ok schema)
    (writable : group.IsWritable schema) : Readable schema group.members :=
  ⟨fun rule listed => (writable.rules rule listed).isReadable loaded,
    fun inner within => writable.joined inner (List.mem_cons_of_mem _ within),
    writable.ruleFirst⟩

theorem exists_isWrittenAs (writable : group.IsWritable schema) :
    ∃ text, group.IsWrittenAs text := by
  by_cases empty : group.members = []
  · exact ⟨_, [], .inl ⟨empty, rfl⟩, rfl⟩
  · obtain ⟨tokens, writes⟩ := exists_writes_members group.combinator group.members
      (fun rule listed => exists_isWrapped (writable.rules rule listed).quotable)
      writable.filled empty
    exact ⟨_, tokens, .inr writes, rfl⟩

end RuleGroup.IsWritable

namespace QueryText

/-- A rule group that can be written with the names of a schema can be read back from every text
that it may be written as, and there is such a text. -/
theorem ruleGroup_of_isWrittenAs (loaded : Schema.ofJson document = .ok schema)
    (group : RuleGroup) (writable : group.IsWritable schema) :
    (∃ text, group.IsWrittenAs text) ∧
      ∀ text, group.IsWrittenAs text → QueryText.ruleGroup schema text = .ok group := by
  refine ⟨writable.exists_isWrittenAs, ?_⟩
  intro text written
  obtain ⟨combinator, members⟩ := group
  have readable : Readable schema members := writable.readable loaded
  have joined : members.length < 2 → combinator = .and :=
    writable.joined _ List.mem_cons_self
  obtain ⟨tokens, ⟨rfl, rfl⟩ | writes, rfl⟩ := written
  · have read := @readTokens_spaced schema [] trivial
    rw [joined Nat.two_pos]
    exact ruleGroup_of_tokens read (.inl rfl)
  · have legible : AllLegible schema false (tokens ++ []) := writes.legible readable trivial
    rw [List.append_nil] at legible
    have query : IsTypedQuery schema tokens := .inr ⟨combinator, (writes.spells readable).1⟩
    rw [ruleGroup_of_tokens (readTokens_spaced legible) query, RuleGroup.ofTokens,
      (writes.reads readable).read, writes.combinatorOf_eq readable joined]
    rfl

/-- A document with one field, and a rule group with values that hold what parts words. -/
def tagDocument : Json :=
  .object [("fields", .array [.object [("name", .string "tag"), ("label", .string "Tag"),
    ("valueKind", .string "text")]])]

def taggedGroup : RuleGroup :=
  ⟨.or, [.group .and [.rule ⟨"tag", "in", "a\nb"⟩, .rule ⟨"tag", "notIn", "it's (OR isn't)"⟩],
    .rule ⟨"tag", "contains", ""⟩]⟩

theorem taggedGroup_read : ∃ schema, Schema.ofJson tagDocument = .ok schema ∧
    taggedGroup.IsWritable schema ∧
    QueryText.ruleGroup schema
        "( tag in 'a\nb' AND tag notIn \"it's (OR isn't)\" ) OR tag contains ''" =
      .ok taggedGroup := by
  have loaded : Schema.ofJson tagDocument =
      .ok (.ofParts [⟨"tag", "Tag", .text, []⟩] Schema.builtinOperators) := by
    have shaped : Schema.shapeIssues tagDocument = [] := by decide +kernel
    have parts : Schema.parts? tagDocument.tidy =
        some ([⟨"tag", "Tag", .text, []⟩], Schema.builtinOperators) := by decide +kernel
    have consistent : Schema.consistencyIssues [⟨"tag", "Tag", .text, []⟩]
        Schema.builtinOperators = [] := by decide +kernel
    simp only [Schema.ofJson, shaped, parts, consistent]
  have writable : taggedGroup.IsWritable
      (.ofParts [⟨"tag", "Tag", .text, []⟩] Schema.builtinOperators) := by
    refine ⟨?_, ?_, ?_, ?_⟩ <;> decide +kernel
  have written : taggedGroup.IsWrittenAs
      "( tag in 'a\nb' AND tag notIn \"it's (OR isn't)\" ) OR tag contains ''" := by
    have first : IsWrapped "a\nb" "'a\nb'" := ⟨'\'', by decide +kernel⟩
    have second : IsWrapped "it's (OR isn't)" "\"it's (OR isn't)\"" := ⟨'"', by decide +kernel⟩
    have third : IsWrapped "" "''" := ⟨'\'', by decide +kernel⟩
    exact ⟨_, .inr (.join (.single (.group (.join (.single (.rule first)) (.rule second))))
      (.rule third)), by decide +kernel⟩
  exact ⟨_, loaded, writable,
    (ruleGroup_of_isWrittenAs loaded taggedGroup writable).2 _ written⟩

end QueryText
end FilterQuery
