import FilterQuery.Proofs.Members
import FilterQuery.Proofs.QuotedValues

namespace FilterQuery

variable {schema : Schema} {phrase : Phrase} {tokens others front back last : List Token}
  {nodes lastNodes : List RuleNode} {value text inside raw : String} {index : Nat}

namespace RuleNode

mutual

/-- The node with another value for one of its leaves. -/
def reword (value : String) (index : Nat) : RuleNode → RuleNode
  | .rule leaf => if index = 0 then .rule { leaf with value := value } else .rule leaf
  | .group combinator members => .group combinator (rewordAll value index members)

def rewordAll (value : String) (index : Nat) : List RuleNode → List RuleNode
  | [] => []
  | node :: rest =>
      if index < node.leaves.length then node.reword value index :: rest
      else node :: rewordAll value (index - node.leaves.length) rest

end

theorem rewordAll_append_left {front back : List RuleNode}
    (within : index < (leavesOfAll front).length) :
    rewordAll value index (front ++ back) = rewordAll value index front ++ back := by
  induction front generalizing index with
  | nil => cases within
  | cons node rest ih =>
      rw [leavesOfAll, List.length_append] at within
      simp only [List.cons_append, rewordAll]
      split
      next => rfl
      next behind => rw [ih (by omega), List.cons_append]

theorem rewordAll_append_right {front back : List RuleNode} :
    rewordAll value ((leavesOfAll front).length + index) (front ++ back) =
      front ++ rewordAll value index back := by
  induction front with
  | nil => simp [leavesOfAll]
  | cons node rest ih =>
      have behind : ¬ node.leaves.length + (leavesOfAll rest).length + index <
          node.leaves.length := by omega
      have later : node.leaves.length + (leavesOfAll rest).length + index - node.leaves.length =
          (leavesOfAll rest).length + index := by omega
      rw [List.cons_append, rewordAll, leavesOfAll, List.length_append, if_neg behind, later, ih]
      rfl

theorem rewordAll_groupOf {combinator : Combinator}
    (within : index < (leavesOfAll nodes).length) :
    rewordAll value index (groupOf combinator nodes) =
      groupOf combinator (rewordAll value index nodes) := by
  cases nodes with
  | nil => cases within
  | cons node rest =>
      have kept : (rewordAll value index (node :: rest)).isEmpty = false := by
        rw [rewordAll]
        split <;> rfl
      have here : index < (RuleNode.group combinator (node :: rest)).leaves.length := within
      simp only [groupOf, kept, List.isEmpty_cons, Bool.false_eq_true, if_false]
      rw [rewordAll, if_pos here, reword]

mutual

theorem leaves_reword (node : RuleNode) (index : Nat) : (node.reword value index).leaves =
    node.leaves.modify index fun leaf => { leaf with value := value } := by
  match node with
  | .rule leaf => cases index <;> simp [reword, leaves]
  | .group combinator members => exact leavesOfAll_rewordAll members index

theorem leavesOfAll_rewordAll (nodes : List RuleNode) (index : Nat) :
    leavesOfAll (rewordAll value index nodes) =
      (leavesOfAll nodes).modify index fun leaf => { leaf with value := value } := by
  match nodes with
  | [] => simp [rewordAll, leavesOfAll]
  | node :: rest =>
      rw [rewordAll, leavesOfAll, modify_append]
      split
      next => rw [leavesOfAll, leaves_reword node]
      next => rw [leavesOfAll, leavesOfAll_rewordAll rest]

end

end RuleNode

def RuleGroup.reword (group : RuleGroup) (index : Nat) (value : String) : RuleGroup :=
  { group with members := RuleNode.rewordAll value index group.members }

theorem RuleGroup.leaves_reword (group : RuleGroup) : (group.reword index value).leaves =
    group.leaves.modify index fun leaf => { leaf with value := value } :=
  RuleNode.leavesOfAll_rewordAll group.members index

theorem Derives.length_leavesOfAll (derives : Derives schema phrase tokens)
    (reads : Reads tokens nodes) :
    (RuleNode.leavesOfAll nodes).length = tokens.countP Token.isValue := by
  have values := derives.values []
  have rules := reads.rules []
  have written : ∀ tokens : List Token,
      (tokens.filterMap Token.written?).length = tokens.countP Token.isValue := by
    intro tokens
    induction tokens with
    | nil => rfl
    | cons token rest ih =>
        rw [List.filterMap_cons, List.countP_cons, ← ih]
        cases token <;> rfl
  rw [List.append_nil] at values rules
  have lengths := congrArg List.length values
  rw [rules] at lengths
  simpa [consecutiveRules, written] using lengths

theorem Holds.reword (holds : Holds schema phrase front back)
    (alike : Counterparts schema .member tokens others nodes
      (RuleNode.rewordAll value index nodes))
    (within : index < (RuleNode.leavesOfAll nodes).length) :
    ∃ whole, front.countP Token.isValue + index < (RuleNode.leavesOfAll whole).length ∧
      Counterparts schema phrase (front ++ tokens ++ back) (front ++ others ++ back) whole
        (RuleNode.rewordAll value (front.countP Token.isValue + index) whole) := by
  induction holds with
  | here =>
      refine ⟨nodes, ?_⟩
      simpa using And.intro within alike
  | @group combinator front back holds ih =>
      obtain ⟨whole, counted, alike⟩ := ih
      have count : (Token.bracket .opening :: front).countP Token.isValue =
          front.countP Token.isValue := rfl
      refine ⟨groupOf (combinatorOf (front ++ tokens ++ back)) whole, ?_, ?_⟩
      · rwa [leavesOfAll_groupOf, count]
      · rw [count, RuleNode.rewordAll_groupOf counted]
        simpa using alike.group
  | single only ih =>
      obtain ⟨whole, counted, alike⟩ := ih
      exact ⟨whole, counted, alike.single⟩
  | @left combinator front back last holds member ih =>
      obtain ⟨whole, counted, alike⟩ := ih
      obtain ⟨lastNodes, reads⟩ := member.reads
      refine ⟨whole ++ lastNodes, ?_, ?_⟩
      · rw [RuleNode.leavesOfAll_append, List.length_append]
        omega
      · rw [RuleNode.rewordAll_append_left counted]
        simpa using alike.left member reads
  | @right combinator first front back derives holds ih =>
      obtain ⟨whole, counted, alike⟩ := ih
      obtain ⟨firstNodes, reads⟩ := derives.reads
      have count : (first ++ Token.combinator combinator :: front).countP Token.isValue =
          (RuleNode.leavesOfAll firstNodes).length + front.countP Token.isValue := by
        rw [List.countP_append, derives.length_leavesOfAll reads]
        rfl
      refine ⟨firstNodes ++ whole, ?_, ?_⟩
      · rw [RuleNode.leavesOfAll_append, List.length_append, count]
        omega
      · rw [count, Nat.add_assoc, RuleNode.rewordAll_append_right]
        simpa using alike.right derives reads

/-- Another value in a phrase changes the leaf that comes behind as many others as there are values
in front. -/
theorem Derives.reword {before after : List Token}
    (derives : Derives schema phrase (before ++ .value raw :: after))
    (encloses : Text.Encloses text inside) :
    ∃ whole, before.countP Token.isValue < (RuleNode.leavesOfAll whole).length ∧
      Counterparts schema phrase (before ++ .value raw :: after) (before ++ .value text :: after)
        whole (RuleNode.rewordAll inside (before.countP Token.isValue) whole) := by
  obtain ⟨front, name, operator, rfl, holds, any⟩ := derives.locate_value rfl
  have reads := reads_rule name operator text
  rw [Text.unquote_of_encloses encloses] at reads
  have alike : Counterparts schema .member
      [.field name, .operator operator, .value raw] [.field name, .operator operator, .value text]
      [.rule ⟨Text.lower name, operator, Text.unquote raw⟩]
      (RuleNode.rewordAll inside 0 [.rule ⟨Text.lower name, operator, Text.unquote raw⟩]) :=
    .of_members (any raw) (any text) (reads_rule name operator raw) reads
  obtain ⟨whole, within, alike⟩ := holds.reword alike Nat.zero_lt_one
  have count : (front ++ [Token.field name, .operator operator]).countP Token.isValue =
      front.countP Token.isValue + 0 := List.countP_append
  rw [← count] at within alike
  simp only [List.append_assoc, List.cons_append, List.nil_append] at alike ⊢
  exact ⟨whole, within, alike⟩

namespace Draft

variable {draft : Draft} {front back : List Slot}

theorem editValue_resolved (split : draft.slots = front ++ .resolved (.value raw) :: back)
    (quoted : Text.isQuoted text = true) : draft.editValue front.length text =
      .ok ⟨draft.schema, front ++ .resolved (.value text) :: back⟩ := by
  have isValue : (Slot.resolved (.value raw)).isValueSlot = true := rfl
  rw [editValue, slot_eq split]
  simp only [isValue, quoted, split, modify_length_append]
  rfl

/-- In a finished query any value can be replaced by whatever stands between two equal quotes.  The
query stays finished.  In its group, the leaf that comes behind as many others as there are values
in front of the slot gets the text between the quotes. -/
theorem editValue_rewords (draft : Draft) (valid : draft.violations = [])
    (held : draft.slots[index]? = some (.resolved (.value raw)))
    (encloses : Text.Encloses text inside) :
    ∃ edited group, draft.editValue index text = .ok edited ∧ edited.violations = [] ∧
      draft.ruleGroup = .ok group ∧
      (resolvedTokens (draft.slots.take index)).countP Token.isValue < group.ruleCount ∧
      edited.ruleGroup = .ok (group.reword
        ((resolvedTokens (draft.slots.take index)).countP Token.isValue) inside) := by
  obtain ⟨front, back, split, rfl⟩ := split_of_getElem? held
  let edited : Draft := ⟨draft.schema, front ++ .resolved (.value text) :: back⟩
  have edits : draft.editValue front.length text = .ok edited :=
    editValue_resolved split (Text.isQuoted_iff.mpr ⟨inside, encloses⟩)
  have inFront : draft.slots.take front.length = front := by
    rw [split, List.take_left]
  have tokens : draft.tokens = resolvedTokens front ++ .value raw :: resolvedTokens back :=
    tokens_split split
  have rewritten : edited.tokens = resolvedTokens front ++ .value text :: resolvedTokens back :=
    @tokens_split edited front back _ rfl
  obtain ⟨combinator, derives⟩ := derives_of_valid valid tokens
  obtain ⟨whole, within, alike⟩ := derives.reword encloses
  have untyped : ∀ slot ∈ edited.slots, Inspection.Untyped slot := by
    have before := ((validate_eq_nil_iff _ _).mp valid).1
    rw [split, List.forall_mem_append, List.forall_mem_cons] at before
    exact List.forall_mem_append.mpr
      ⟨before.1, List.forall_mem_cons.mpr ⟨nofun, before.2.2⟩⟩
  rw [← tokens, ← rewritten] at alike
  obtain ⟨stays, group, editedGroup⟩ := alike.ruleGroup valid rfl untyped
  rw [inFront]
  exact ⟨edited, _, edits, stays, group, within, editedGroup⟩

end Draft

theorem nestedDraft_editValue_rewords : ∃ edited group,
    nestedDraft.editValue 12 "'\"b'" = .ok edited ∧ edited.violations = [] ∧
      nestedDraft.ruleGroup = .ok group ∧ 1 < group.ruleCount ∧
      edited.ruleGroup = .ok (group.reword 1 "\"b") := by
  have valid : nestedDraft.violations = [] := by
    rw [Draft.violations, validate]
    decide +kernel
  have held : nestedDraft.slots[12]? = some (.resolved (.value "\"b\"")) := rfl
  have encloses : Text.Encloses "'\"b'" "\"b" := ⟨'\'', rfl, rfl⟩
  exact nestedDraft.editValue_rewords valid held encloses

end FilterQuery
