import FilterQuery.Proofs.Outline

namespace FilterQuery

variable {schema : Schema} {phrase : Phrase} {combinator : Combinator}
  {tokens others front back last : List Token} {nodes otherNodes lastNodes : List RuleNode}

theorem modify_append {α : Type} {front back : List α} {index : Nat} {change : α → α} :
    (front ++ back).modify index change =
      if index < front.length then front.modify index change ++ back
      else front ++ back.modify (index - front.length) change := by
  induction front generalizing index with
  | nil => rfl
  | cons first rest ih =>
      cases index with
      | zero => rfl
      | succ index =>
          simp only [List.cons_append, List.modify_succ_cons, ih, List.length_cons,
            Nat.add_lt_add_iff_right, Nat.add_sub_add_right]
          split <;> rfl

/-- The tokens in front of a member of a phrase and those behind it, at any depth. -/
inductive Holds (schema : Schema) : Phrase → List Token → List Token → Prop
  | here : Holds schema .member [] []
  | group {combinator : Combinator} {front back : List Token}
      (inside : Holds schema (.members combinator) front back) :
      Holds schema .member (.bracket .opening :: front) (back ++ [.bracket .closing])
  | single {combinator : Combinator} {front back : List Token}
      (only : Holds schema .member front back) : Holds schema (.members combinator) front back
  | left {combinator : Combinator} {front back last : List Token}
      (holds : Holds schema (.members combinator) front back)
      (member : Derives schema .member last) :
      Holds schema (.members combinator) front (back ++ .combinator combinator :: last)
  | right {combinator : Combinator} {tokens front back : List Token}
      (derives : Derives schema (.members combinator) tokens)
      (holds : Holds schema .member front back) :
      Holds schema (.members combinator) (tokens ++ .combinator combinator :: front) back

theorem split_bracketed {before after : List Token} {token : Token}
    (split : .bracket .opening :: (tokens ++ [.bracket .closing]) = before ++ token :: after)
    (notBracket : token.type ≠ .group) :
    ∃ read rest, before = .bracket .opening :: read ∧ tokens = read ++ token :: rest ∧
      after = rest ++ [.bracket .closing] := by
  cases before with
  | nil =>
      cases split
      exact absurd rfl notBracket
  | cons first read =>
      obtain ⟨rfl, later⟩ := List.cons.inj split
      rcases split_append_cons later with ⟨rest, inside, behind⟩ | ⟨-, rfl, -⟩ | ⟨rest, -, beyond⟩
      · exact ⟨read, rest, rfl, inside, behind⟩
      · exact absurd rfl notBracket
      · cases rest <;> cases beyond

theorem Derives.locate_value {before after : List Token} {raw : String}
    (derives : Derives schema phrase tokens) (split : tokens = before ++ .value raw :: after) :
    ∃ front name operator, before = front ++ [.field name, .operator operator] ∧
      Holds schema phrase front after ∧
      ∀ text, Derives schema .member [.field name, .operator operator, .value text] := by
  induction derives generalizing before after with
  | @rule name operator _ field found known declared =>
      rcases before with _ | ⟨_, _ | ⟨_, _ | ⟨_, before⟩⟩⟩
      · cases split
      · cases split
      · cases split
        exact ⟨[], name, operator, rfl, .here, fun _ => .rule found known declared⟩
      · cases before <;> cases split
  | emptyGroup => rcases before with _ | ⟨_, _ | ⟨_, before⟩⟩ <;> simp at split
  | group inside ih =>
      obtain ⟨read, rest, rfl, within, rfl⟩ := split_bracketed split nofun
      obtain ⟨front, name, operator, rfl, holds, any⟩ := ih within
      exact ⟨_, name, operator, rfl, .group holds, any⟩
  | single only ih =>
      obtain ⟨front, name, operator, rfl, holds, any⟩ := ih split
      exact ⟨front, name, operator, rfl, .single holds, any⟩
  | @join combinator tokens last derived member frontIH memberIH =>
      rcases split_append_cons split with ⟨rest, inFront, rfl⟩ | ⟨-, absurd, -⟩ |
        ⟨read, rfl, inLast⟩
      · obtain ⟨front, name, operator, rfl, holds, any⟩ := frontIH inFront
        exact ⟨front, name, operator, rfl, .left holds member, any⟩
      · cases absurd
      · obtain ⟨front, name, operator, rfl, holds, any⟩ := memberIH inLast
        exact ⟨_, name, operator, by rw [List.append_assoc]; rfl, .right derived holds, any⟩

/-- A combinator joins the members of the phrase itself, or those of a group in it. -/
theorem Derives.locate_combinator {before after : List Token} {found : Combinator}
    (derives : Derives schema phrase tokens)
    (split : tokens = before ++ .combinator found :: after) :
    (phrase = .members found ∧ Derives schema (.members found) before ∧
      Derives schema (.members found) after) ∨
    ∃ front inner rest back, before = front ++ .bracket .opening :: inner ∧
      after = rest ++ .bracket .closing :: back ∧ Holds schema phrase front back ∧
      Derives schema (.members found) inner ∧ Derives schema (.members found) rest := by
  induction derives generalizing before after with
  | rule found known declared =>
      rcases before with _ | ⟨_, _ | ⟨_, _ | ⟨_, before⟩⟩⟩ <;> simp at split
  | emptyGroup => rcases before with _ | ⟨_, _ | ⟨_, before⟩⟩ <;> simp at split
  | group inside ih =>
      obtain ⟨read, rest, rfl, within, rfl⟩ := split_bracketed split nofun
      rcases ih within with ⟨-, left, right⟩ | ⟨front, inner, rest, back, rfl, rfl, holds, parts⟩
      · exact .inr ⟨[], read, rest, [], rfl, rfl, .here, left, right⟩
      · exact .inr ⟨.bracket .opening :: front, inner, rest, back ++ [.bracket .closing], rfl,
          by rw [List.append_assoc]; rfl, .group holds, parts⟩
  | single only ih =>
      rcases ih split with ⟨isMembers, -⟩ | ⟨front, inner, rest, back, rfl, rfl, holds, parts⟩
      · cases isMembers
      · exact .inr ⟨front, inner, rest, back, rfl, rfl, .single holds, parts⟩
  | @join combinator tokens last derived member frontIH memberIH =>
      rcases split_append_cons split with ⟨rest, inFront, rfl⟩ | ⟨rfl, same, rfl⟩ |
        ⟨read, rfl, inLast⟩
      · rcases frontIH inFront with ⟨same, left, right⟩ |
          ⟨front, inner, rest, back, rfl, rfl, holds, parts⟩
        · cases same
          exact .inl ⟨rfl, left, .join right member⟩
        · exact .inr ⟨front, inner, rest, _, rfl, by rw [List.append_assoc]; rfl,
            .left holds member, parts⟩
      · cases same
        exact .inl ⟨rfl, derived, .single member⟩
      · rcases memberIH inLast with ⟨isMembers, -⟩ |
          ⟨front, inner, rest, back, rfl, rfl, holds, parts⟩
        · cases isMembers
        · exact .inr ⟨_, inner, rest, back, by rw [List.append_assoc]; rfl, rfl,
            .right derived holds, parts⟩

/-- Two phrases that are joined with others in the same way, and the nodes they are read into. -/
structure Counterparts (schema : Schema) (phrase : Phrase) (tokens others : List Token)
    (nodes otherNodes : List RuleNode) : Prop where
  derives : Derives schema phrase tokens
  otherDerives : Derives schema phrase others
  reads : Reads tokens nodes
  otherReads : Reads others otherNodes
  sameCombinator : combinatorOf others = combinatorOf tokens

namespace Counterparts

theorem of_members (derives : Derives schema .member tokens)
    (otherDerives : Derives schema .member others) (reads : Reads tokens nodes)
    (otherReads : Reads others otherNodes) :
    Counterparts schema .member tokens others nodes otherNodes := by
  have nothing : combinatorAhead 0 tokens = none := derives.combinatorAhead_leaves
  have nothingElse : combinatorAhead 0 others = none := otherDerives.combinatorAhead_leaves
  refine ⟨derives, otherDerives, reads, otherReads, ?_⟩
  rw [combinatorOf, combinatorOf, nothing, nothingElse]

theorem group (alike : Counterparts schema (.members combinator) tokens others nodes otherNodes) :
    Counterparts schema .member (.bracket .opening :: (tokens ++ [.bracket .closing]))
      (.bracket .opening :: (others ++ [.bracket .closing]))
      (groupOf (combinatorOf tokens) nodes) (groupOf (combinatorOf tokens) otherNodes) := by
  have otherReads := alike.otherReads.bracket alike.otherDerives
  rw [alike.sameCombinator] at otherReads
  exact of_members (.group alike.derives) (.group alike.otherDerives)
    (alike.reads.bracket alike.derives) otherReads

theorem single (alike : Counterparts schema .member tokens others nodes otherNodes) :
    Counterparts schema (.members combinator) tokens others nodes otherNodes :=
  ⟨.single alike.derives, .single alike.otherDerives, alike.reads, alike.otherReads,
    alike.sameCombinator⟩

theorem left (alike : Counterparts schema (.members combinator) tokens others nodes otherNodes)
    (member : Derives schema .member last) (reads : Reads last lastNodes) :
    Counterparts schema (.members combinator) (tokens ++ .combinator combinator :: last)
      (others ++ .combinator combinator :: last) (nodes ++ lastNodes)
      (otherNodes ++ lastNodes) := by
  refine ⟨.join alike.derives member, .join alike.otherDerives member,
    alike.reads.join alike.derives member reads,
    alike.otherReads.join alike.otherDerives member reads, ?_⟩
  rw [combinatorOf, combinatorOf, alike.derives.combinatorAhead_join,
    alike.otherDerives.combinatorAhead_join]

theorem right (alike : Counterparts schema .member tokens others nodes otherNodes)
    (derives : Derives schema (.members combinator) last) (reads : Reads last lastNodes) :
    Counterparts schema (.members combinator) (last ++ .combinator combinator :: tokens)
      (last ++ .combinator combinator :: others) (lastNodes ++ nodes)
      (lastNodes ++ otherNodes) := by
  refine ⟨.join derives alike.derives, .join derives alike.otherDerives,
    reads.join derives alike.derives alike.reads,
    reads.join derives alike.otherDerives alike.otherReads, ?_⟩
  rw [combinatorOf, combinatorOf, derives.combinatorAhead_join, derives.combinatorAhead_join]

end Counterparts

theorem Holds.reread (holds : Holds schema phrase front back)
    (alike : Counterparts schema .member tokens others nodes nodes) :
    ∃ whole, Counterparts schema phrase (front ++ tokens ++ back) (front ++ others ++ back) whole
      whole := by
  induction holds with
  | here => exact ⟨nodes, by simpa using alike⟩
  | group inside ih =>
      obtain ⟨whole, alike⟩ := ih
      exact ⟨_, by simpa using alike.group⟩
  | single only ih =>
      obtain ⟨whole, alike⟩ := ih
      exact ⟨whole, alike.single⟩
  | left holds member ih =>
      obtain ⟨whole, alike⟩ := ih
      obtain ⟨lastNodes, reads⟩ := member.reads
      exact ⟨_, by simpa using alike.left member reads⟩
  | right derives holds ih =>
      obtain ⟨whole, alike⟩ := ih
      obtain ⟨firstNodes, reads⟩ := derives.reads
      exact ⟨_, by simpa using alike.right derives reads⟩

theorem Draft.ruleGroup_of_reads {draft : Draft} (valid : draft.violations = [])
    (reads : Reads draft.tokens nodes) :
    draft.ruleGroup = .ok ⟨combinatorOf draft.tokens, nodes⟩ := by
  obtain ⟨group, taken, read, -⟩ := ruleGroup_of_valid valid
  rw [reads.read] at read
  cases read
  exact taken

/-- A finished query stays finished, and its group changes as its nodes do. -/
theorem Counterparts.ruleGroup {draft edited : Draft}
    (alike : Counterparts draft.schema (.members combinator) draft.tokens edited.tokens nodes
      otherNodes)
    (valid : draft.violations = []) (sameSchema : edited.schema = draft.schema)
    (untyped : ∀ slot ∈ edited.slots, Inspection.Untyped slot) :
    edited.violations = [] ∧ draft.ruleGroup = .ok ⟨combinatorOf draft.tokens, nodes⟩ ∧
      edited.ruleGroup = .ok ⟨combinatorOf draft.tokens, otherNodes⟩ := by
  have stays : edited.violations = [] :=
    (validate_eq_nil_iff _ _).mpr
      ⟨untyped, .inr ⟨combinator, sameSchema ▸ alike.otherDerives⟩⟩
  refine ⟨stays, Draft.ruleGroup_of_reads valid alike.reads, ?_⟩
  rw [Draft.ruleGroup_of_reads stays alike.otherReads, alike.sameCombinator]

theorem Draft.derives_of_valid {draft : Draft} {before after : List Token} {token : Token}
    (valid : draft.violations = []) (split : draft.tokens = before ++ token :: after) :
    ∃ combinator, Derives draft.schema (.members combinator) (before ++ token :: after) := by
  rcases ((validate_eq_nil_iff _ _).mp valid).2 with nothing | derives
  · change draft.tokens = [] at nothing
    simp [split] at nothing
  · exact split ▸ derives

end FilterQuery
