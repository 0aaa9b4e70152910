import FilterQuery.Draft.Edit
import FilterQuery.Proofs.Recognition

namespace FilterQuery

/-! Reading a finished query keeps its rules, its groups and its combinators.

The outline of a query is written off its tokens alone: the rules where field, operator and value
stand together, and the brackets that hold a value, each with the combinator of its scope.  Writing
a rule group in the same marks gives back the outline of the tokens from which it was read.
-/

/-- A mark of an outline. -/
inductive Mark where
  | opening (combinator : Combinator)
  | closing
  | rule (rule : Rule)
deriving DecidableEq, Repr

namespace RuleNode

mutual

def marks : RuleNode → List Mark
  | .rule leaf => [.rule leaf]
  | .group combinator members => .opening combinator :: (marksOfAll members ++ [.closing])

def marksOfAll : List RuleNode → List Mark
  | [] => []
  | node :: rest => node.marks ++ marksOfAll rest

end

@[simp] theorem marksOfAll_append (front back : List RuleNode) :
    marksOfAll (front ++ back) = marksOfAll front ++ marksOfAll back := by
  induction front with
  | nil => rfl
  | cons node rest ih => simp only [List.cons_append, marksOfAll, ih, List.append_assoc]

@[simp] theorem leavesOfAll_append (front back : List RuleNode) :
    leavesOfAll (front ++ back) = leavesOfAll front ++ leavesOfAll back := by
  induction front with
  | nil => rfl
  | cons node rest ih => simp only [List.cons_append, leavesOfAll, ih, List.append_assoc]

@[simp] theorem groupsOfAll_append (front back : List RuleNode) :
    groupsOfAll (front ++ back) = groupsOfAll front ++ groupsOfAll back := by
  induction front with
  | nil => rfl
  | cons node rest ih => simp only [List.cons_append, groupsOfAll, ih, List.append_assoc]

/-- Whether marks that follow some nodes do not go on with another one. -/
def EndsNodes : List Mark → Prop
  | [] => True
  | .closing :: _ => True
  | _ => False

theorem endsNodes_nil : EndsNodes [] := trivial

theorem endsNodes_closing {back : List Mark} : EndsNodes (.closing :: back) := trivial

/-- Nodes can be told from their marks, whatever follows the end of their group. -/
theorem marksOfAll_cancel {back otherBack : List Mark} (nodes others : List RuleNode)
    (ends : EndsNodes back) (otherEnds : EndsNodes otherBack)
    (same : marksOfAll nodes ++ back = marksOfAll others ++ otherBack) :
    nodes = others ∧ back = otherBack := by
  match nodes, others with
  | [], [] => exact ⟨rfl, same⟩
  | [], .rule other :: others =>
      change back = .rule other :: _ at same
      rw [same] at ends
      cases ends
  | [], .group otherCombinator inner :: others =>
      change back = .opening otherCombinator :: _ at same
      rw [same] at ends
      cases ends
  | .rule leaf :: nodes, [] =>
      change Mark.rule leaf :: _ = otherBack at same
      rw [← same] at otherEnds
      cases otherEnds
  | .group combinator members :: nodes, [] =>
      change Mark.opening combinator :: _ = otherBack at same
      rw [← same] at otherEnds
      cases otherEnds
  | .rule leaf :: nodes, .rule other :: others =>
      change Mark.rule leaf :: (marksOfAll nodes ++ back) =
        Mark.rule other :: (marksOfAll others ++ otherBack) at same
      obtain ⟨sameRule, later⟩ := List.cons.inj same
      obtain ⟨rfl, sameBack⟩ := marksOfAll_cancel nodes others ends otherEnds later
      cases sameRule
      exact ⟨rfl, sameBack⟩
  | .rule leaf :: nodes, .group otherCombinator inner :: others =>
      change Mark.rule leaf :: _ = Mark.opening otherCombinator :: _ at same
      cases (List.cons.inj same).1
  | .group combinator members :: nodes, .rule other :: others =>
      change Mark.opening combinator :: _ = Mark.rule other :: _ at same
      cases (List.cons.inj same).1
  | .group combinator members :: nodes, .group otherCombinator inner :: others =>
      simp only [marksOfAll, marks, List.cons_append, List.append_assoc, List.nil_append,
        List.cons.injEq, Mark.opening.injEq] at same
      obtain ⟨rfl, inside⟩ := same
      obtain ⟨rfl, later⟩ :=
        marksOfAll_cancel members inner endsNodes_closing endsNodes_closing inside
      obtain ⟨rfl, sameBack⟩ :=
        marksOfAll_cancel nodes others ends otherEnds (List.cons.inj later).2
      exact ⟨rfl, sameBack⟩

theorem marksOfAll_inj {nodes others : List RuleNode} :
    marksOfAll nodes = marksOfAll others ↔ nodes = others := by
  constructor
  · intro same
    have padded : marksOfAll nodes ++ [] = marksOfAll others ++ [] := by rw [same]
    exact (marksOfAll_cancel nodes others endsNodes_nil endsNodes_nil padded).1
  · intro same
    subst same
    rfl

end RuleNode

def Token.isValue : Token → Bool
  | .value _ => true
  | _ => false

/-- Whether a value stands before the end of the scope.  `depth` is the number of brackets opened
since. -/
def holdsValue (depth : Nat) : List Token → Bool
  | [] => false
  | .value _ :: _ => true
  | .bracket .opening :: rest => holdsValue (depth + 1) rest
  | .bracket .closing :: rest =>
      match depth with
      | 0 => false
      | depth + 1 => holdsValue depth rest
  | _ :: rest => holdsValue depth rest

/-- The combinator of the scope in which the tokens start. -/
def combinatorOf (tokens : List Token) : Combinator :=
  (combinatorAhead 0 tokens).getD .and

def ruleAhead? : List Token → Option Rule
  | .field name :: .operator operator :: .value raw :: _ =>
      some ⟨Text.lower name, operator, Text.unquote raw⟩
  | _ => none

def consecutiveRules : List Token → List Rule
  | [] => []
  | token :: rest => (ruleAhead? (token :: rest)).toList ++ consecutiveRules rest

/-- The outline of tokens inside open brackets, for each of which it is known whether it holds a
value, the innermost first. -/
def outline (kept : List Bool) : List Token → List Mark
  | [] => []
  | .bracket .opening :: rest =>
      (if holdsValue 0 rest then [.opening (combinatorOf rest)] else []) ++
        outline (holdsValue 0 rest :: kept) rest
  | .bracket .closing :: rest =>
      match kept with
      | [] => outline [] rest
      | keep :: kept => (if keep then [.closing] else []) ++ outline kept rest
  | token :: rest => ((ruleAhead? (token :: rest)).map .rule).toList ++ outline kept rest

section Scans

variable {schema : Schema} {phrase : Phrase} {tokens : List Token}

theorem Derives.holdsValue_append (derives : Derives schema phrase tokens) (depth : Nat)
    (rest : List Token) :
    holdsValue depth (tokens ++ rest) = (tokens.any Token.isValue || holdsValue depth rest) := by
  induction derives generalizing depth rest with
  | rule found known declared => rfl
  | emptyGroup => rfl
  | group inside ih =>
      rw [List.cons_append, List.append_assoc, holdsValue, ih]
      simp [holdsValue, Token.isValue]
  | single only ih => exact ih depth rest
  | join front member frontIH memberIH =>
      rw [List.append_assoc, frontIH, List.cons_append]
      change (_ || holdsValue depth (_ ++ rest)) = _
      rw [memberIH]
      simp [Token.isValue, Bool.or_assoc]

/-- A member is passed over as a whole, and members are joined by their own combinator. -/
theorem Derives.combinatorAhead_leaves (derives : Derives schema phrase tokens) :
    phrase.Leaves none (combinatorAhead 0 tokens) := by
  induction derives with
  | rule found known declared => rfl
  | emptyGroup => rfl
  | group inside ih =>
      have skipped := inside.isLevel.combinatorAhead_inside 0 [.bracket .closing]
      rw [combinatorAhead, skipped]
      rfl
  | single only ih =>
      have nothing : combinatorAhead 0 _ = none := ih
      rw [nothing]
      exact agrees_none
  | @join combinator tokens last front member frontIH memberIH =>
      have joined : (combinatorAhead 0 tokens).or (some combinator) = some combinator :=
        Agrees.or_self frontIH
      rw [front.isLevel.combinatorAhead_append, combinatorAhead, joined]
      exact agrees_some

theorem Derives.combinatorAhead_join {combinator : Combinator} {rest : List Token}
    (front : Derives schema (.members combinator) tokens) :
    combinatorAhead 0 (tokens ++ .combinator combinator :: rest) = some combinator := by
  rw [front.isLevel.combinatorAhead_append]
  exact Agrees.or_self front.combinatorAhead_leaves

end Scans

/-- What reading the tokens of a phrase into some nodes means: the nodes join those of the open
group, they have the outline of the tokens, and there are some exactly if there is a value. -/
structure Reads (tokens : List Token) (nodes : List RuleNode) : Prop where
  built : ∀ (current : OpenGroup) outer rest, current.pending = .blank →
    RuleGroup.build current outer (tokens ++ rest) =
      RuleGroup.build ⟨(combinatorAhead 0 tokens).getD current.combinator,
        nodes.reverse ++ current.members, .blank⟩ outer rest
  outlined : ∀ kept rest,
    outline kept (tokens ++ rest) = RuleNode.marksOfAll nodes ++ outline kept rest
  rules : ∀ rest,
    consecutiveRules (tokens ++ rest) = RuleNode.leavesOfAll nodes ++ consecutiveRules rest
  filled : nodes.isEmpty = !tokens.any Token.isValue

variable {schema : Schema} {tokens last : List Token} {nodes lastNodes : List RuleNode}

theorem reads_rule (name operator raw : String) :
    Reads [.field name, .operator operator, .value raw]
      [.rule ⟨Text.lower name, operator, Text.unquote raw⟩] := by
  refine ⟨?_, fun _ _ => rfl, fun _ => rfl, rfl⟩
  intro current outer rest blank
  obtain ⟨combinator, members, pending⟩ := current
  subst blank
  rfl

theorem reads_emptyGroup : Reads [.bracket .opening, .bracket .closing] [] := by
  refine ⟨?_, fun _ _ => rfl, fun _ => rfl, rfl⟩
  intro current outer rest blank
  obtain ⟨combinator, members, pending⟩ := current
  subst blank
  rfl

/-- The nodes that a bracketed phrase is read into: a group, or nothing if it holds no value. -/
def groupOf (combinator : Combinator) (nodes : List RuleNode) : List RuleNode :=
  if nodes.isEmpty then [] else [.group combinator nodes]

theorem marksOfAll_groupOf (combinator : Combinator) (nodes : List RuleNode) :
    RuleNode.marksOfAll (groupOf combinator nodes) =
      (if !nodes.isEmpty then [.opening combinator] else []) ++ RuleNode.marksOfAll nodes ++
        if !nodes.isEmpty then [.closing] else [] := by
  cases nodes with
  | nil => rfl
  | cons node rest => simp [groupOf, RuleNode.marksOfAll, RuleNode.marks]

theorem leavesOfAll_groupOf (combinator : Combinator) (nodes : List RuleNode) :
    RuleNode.leavesOfAll (groupOf combinator nodes) = RuleNode.leavesOfAll nodes := by
  cases nodes with
  | nil => rfl
  | cons node rest => simp [groupOf, RuleNode.leavesOfAll, RuleNode.leaves]

theorem addGroup_eq (current : OpenGroup) (combinator : Combinator) (nodes : List RuleNode) :
    current.addGroup ⟨combinator, nodes⟩ =
      { current with members := (groupOf combinator nodes).reverse ++ current.members } := by
  cases nodes <;> rfl

/-- The scope of a phrase holds a value exactly if there are nodes. -/
theorem Reads.holdsValue_eq {phrase : Phrase} (derives : Derives schema phrase tokens)
    (reads : Reads tokens nodes) (rest : List Token) :
    holdsValue 0 (tokens ++ .bracket .closing :: rest) = !nodes.isEmpty := by
  rw [derives.holdsValue_append, reads.filled, Bool.not_not]
  exact Bool.or_false _

theorem Reads.bracket {combinator : Combinator}
    (inside : Derives schema (.members combinator) tokens) (reads : Reads tokens nodes) :
    Reads (.bracket .opening :: (tokens ++ [.bracket .closing]))
      (groupOf (combinatorOf tokens) nodes) := by
  have skipped : combinatorAhead 0 (.bracket .opening :: (tokens ++ [.bracket .closing])) =
      none := by
    rw [combinatorAhead, inside.isLevel.combinatorAhead_inside]
    rfl
  have holds := Reads.holdsValue_eq inside reads
  have joins : ∀ rest, combinatorOf (tokens ++ .bracket .closing :: rest) =
      combinatorOf tokens := by
    intro rest
    have ahead : combinatorAhead 0 (.bracket .closing :: rest) = none := rfl
    rw [combinatorOf, inside.isLevel.combinatorAhead_append, ahead, Option.or_none, combinatorOf]
  refine ⟨?_, ?_, ?_, ?_⟩
  · intro current outer rest blank
    obtain ⟨found, members, pending⟩ := current
    subst blank
    rw [skipped, List.cons_append, List.append_assoc, RuleGroup.build, reads.built _ _ _ rfl,
      List.singleton_append, RuleGroup.build, OpenGroup.finish, List.reverse_append,
      List.reverse_reverse, addGroup_eq]
    rfl
  · intro kept rest
    rw [List.cons_append, List.append_assoc, List.singleton_append, outline, reads.outlined,
      outline, holds, joins, marksOfAll_groupOf]
    simp only [List.append_assoc]
  · intro rest
    rw [leavesOfAll_groupOf, List.cons_append, List.append_assoc, consecutiveRules, reads.rules]
    rfl
  · rw [List.any_cons, List.any_append, ← Bool.not_not (tokens.any _), ← reads.filled]
    cases nodes <;> rfl

theorem Reads.join {combinator : Combinator}
    (front : Derives schema (.members combinator) tokens)
    (member : Derives schema .member last) (reads : Reads tokens nodes)
    (lastReads : Reads last lastNodes) :
    Reads (tokens ++ .combinator combinator :: last) (nodes ++ lastNodes) := by
  have nothing : combinatorAhead 0 last = none := member.combinatorAhead_leaves
  have joined : combinatorAhead 0 (tokens ++ .combinator combinator :: last) = some combinator :=
    front.combinatorAhead_join
  refine ⟨?_, ?_, ?_, ?_⟩
  · intro current outer rest blank
    rw [joined, List.append_assoc, reads.built _ _ _ blank, List.cons_append]
    change RuleGroup.build (OpenGroup.see _ (.combinator combinator)) outer (last ++ rest) = _
    rw [lastReads.built _ _ _ rfl, nothing, List.reverse_append, List.append_assoc]
    rfl
  · intro kept rest
    rw [List.append_assoc, reads.outlined, List.cons_append]
    change _ ++ outline kept (last ++ rest) = _
    rw [lastReads.outlined, RuleNode.marksOfAll_append, List.append_assoc]
  · intro rest
    rw [List.append_assoc, reads.rules, List.cons_append]
    change _ ++ consecutiveRules (last ++ rest) = _
    rw [lastReads.rules, RuleNode.leavesOfAll_append, List.append_assoc]
  · have both : (nodes ++ lastNodes).isEmpty = (nodes.isEmpty && lastNodes.isEmpty) := by
      cases nodes <;> rfl
    rw [both, reads.filled, lastReads.filled, List.any_append, List.any_cons, Bool.not_or]
    rfl

theorem Derives.reads {phrase : Phrase} (derives : Derives schema phrase tokens) :
    ∃ nodes, Reads tokens nodes := by
  induction derives with
  | rule found known declared => exact ⟨_, reads_rule _ _ _⟩
  | emptyGroup => exact ⟨_, reads_emptyGroup⟩
  | group inside ih =>
      obtain ⟨nodes, reads⟩ := ih
      exact ⟨_, reads.bracket inside⟩
  | single only ih => exact ih
  | join front member frontIH memberIH =>
      obtain ⟨nodes, reads⟩ := frontIH
      obtain ⟨lastNodes, lastReads⟩ := memberIH
      exact ⟨_, reads.join front member lastReads⟩

theorem Reads.read (reads : Reads tokens nodes) :
    RuleGroup.read tokens = (⟨combinatorOf tokens, nodes⟩, []) := by
  have built := reads.built .blank [] [] rfl
  rw [List.append_nil] at built
  rw [RuleGroup.read, built, OpenGroup.blank, List.append_nil, RuleGroup.build,
    RuleGroup.closeAll, OpenGroup.finish, List.reverse_reverse, combinatorOf]

/-- Every token of a finished query is read, the rules are those that stand together in the tokens,
and the group is the one with the combinator and the outline of the tokens. -/
theorem IsQuery.read (query : IsQuery schema tokens) :
    ∃ group, RuleGroup.read tokens = (group, []) ∧ group.leaves = consecutiveRules tokens ∧
      group.combinator = combinatorOf tokens ∧
      RuleNode.marksOfAll group.members = outline [] tokens := by
  rcases query with rfl | ⟨combinator, derives⟩
  · exact ⟨.empty, rfl, rfl, rfl, rfl⟩
  · obtain ⟨nodes, reads⟩ := derives.reads
    have outlined := reads.outlined [] []
    have rules := reads.rules []
    rw [List.append_nil] at outlined rules
    refine ⟨⟨combinatorOf tokens, nodes⟩, reads.read, ?_, rfl, ?_⟩
    · rw [RuleGroup.leaves, rules]
      exact (List.append_nil _).symm
    · rw [outlined]
      exact (List.append_nil _).symm

theorem Draft.violations_of_ruleGroup {draft : Draft} {group : RuleGroup}
    (taken : draft.ruleGroup = .ok group) : draft.violations = [] := by
  unfold ruleGroup at taken
  split at taken
  next valid => exact valid
  next => cases taken

theorem Draft.ruleGroup_of_valid {draft : Draft} (valid : draft.violations = []) :
    ∃ group, draft.ruleGroup = .ok group ∧ RuleGroup.read draft.tokens = (group, []) ∧
      group.leaves = consecutiveRules draft.tokens ∧
      group.combinator = combinatorOf draft.tokens ∧
      RuleNode.marksOfAll group.members = outline [] draft.tokens := by
  have finished : Standing.start.Viable draft.schema draft.tokens ∧
      (Standing.start.seeAll draft.tokens).Finished := (validate_eq_nil_iff_viable.mp valid).2
  obtain ⟨group, read, parts⟩ := (viable_finished_iff.mp finished).read
  refine ⟨group, ?_, read, parts⟩
  rw [ruleGroup, valid]
  exact congrArg (Except.ok ·.1) read

/-- The rule group of a draft without violations.  Every token is read, the leaves are the rules of
the tokens in order, and there is no other group with the combinator and the outline of the
tokens. -/
theorem Draft.ruleGroup_faithful (draft : Draft) (valid : draft.violations = []) :
    ∃ group, draft.ruleGroup = .ok group ∧ RuleGroup.read draft.tokens = (group, []) ∧
      group.leaves = consecutiveRules draft.tokens ∧
      ∀ other : RuleGroup, other = group ↔
        other.combinator = combinatorOf draft.tokens ∧
          RuleNode.marksOfAll other.members = outline [] draft.tokens := by
  obtain ⟨group, taken, read, leaves, combinator, outlined⟩ := ruleGroup_of_valid valid
  refine ⟨group, taken, read, leaves, ?_⟩
  intro other
  obtain ⟨otherCombinator, members⟩ := other
  rw [← combinator, ← outlined, RuleNode.marksOfAll_inj]
  constructor
  · intro same
    subst same
    exact ⟨rfl, rfl⟩
  · intro sameParts
    obtain ⟨rfl, rfl⟩ := sameParts
    rfl

/-- A draft with a group in a group, empty brackets and pending slots. -/
def nestedDraft : Draft :=
  ⟨.builtin,
    [.resolved (.bracket .opening), .resolved (.field "text"), .resolved (.operator "contains"),
      .resolved (.value "\"a\""), .resolved (.combinator .or), .resolved (.bracket .opening),
      .fresh .initial, .resolved (.bracket .closing), .resolved (.combinator .or),
      .resolved (.bracket .opening), .resolved (.field "classifier"), .resolved (.operator "in"),
      .resolved (.value "\"b\""), .resolved (.bracket .closing), .resolved (.bracket .closing),
      .fresh TokenType.group.follow]⟩

theorem nestedDraft_faithful : nestedDraft.violations = [] ∧
    ∃ group, nestedDraft.ruleGroup = .ok group ∧ RuleGroup.read nestedDraft.tokens = (group, []) ∧
      group.leaves = [⟨"text", "contains", "a"⟩, ⟨"classifier", "in", "b"⟩] ∧
      group.combinator = .and ∧
      RuleNode.marksOfAll group.members =
        [.opening .or, .rule ⟨"text", "contains", "a"⟩, .opening .and,
          .rule ⟨"classifier", "in", "b"⟩, .closing, .closing] := by
  have valid : nestedDraft.violations = [] := by
    rw [Draft.violations, validate]
    decide +kernel
  obtain ⟨group, taken, read, leaves, only⟩ := nestedDraft.ruleGroup_faithful valid
  obtain ⟨combinator, outlined⟩ := (only group).mp rfl
  refine ⟨valid, group, taken, read, leaves.trans ?_, combinator, outlined.trans ?_⟩
  · decide +kernel
  · decide +kernel

end FilterQuery
