import FilterQuery.Proofs.Neighbours
import FilterQuery.Proofs.OfferedTokens
import FilterQuery.Proofs.SharedScopes

namespace FilterQuery

variable {schema : Schema} {phrase : Phrase} {tokens others front back last : List Token}
  {nodes lastNodes : List RuleNode} {wanted found : Combinator} {index : Nat}

namespace RuleNode

mutual

/-- The node with another combinator for one of its groups. -/
def rejoin (wanted : Combinator) (index : Nat) : RuleNode → RuleNode
  | .rule leaf => .rule leaf
  | .group combinator members =>
      if index = 0 then .group wanted members
      else .group combinator (rejoinAll wanted (index - 1) members)

def rejoinAll (wanted : Combinator) (index : Nat) : List RuleNode → List RuleNode
  | [] => []
  | node :: rest =>
      if index < node.groups.length then node.rejoin wanted index :: rest
      else node :: rejoinAll wanted (index - node.groups.length) rest

end

theorem rejoinAll_append_left {front back : List RuleNode}
    (within : index < (groupsOfAll front).length) :
    rejoinAll wanted index (front ++ back) = rejoinAll wanted index front ++ back := by
  induction front generalizing index with
  | nil => cases within
  | cons node rest ih =>
      rw [groupsOfAll, List.length_append] at within
      simp only [List.cons_append, rejoinAll]
      split
      next => rfl
      next behind => rw [ih (by omega), List.cons_append]

theorem rejoinAll_append_right {front back : List RuleNode} :
    rejoinAll wanted ((groupsOfAll front).length + index) (front ++ back) =
      front ++ rejoinAll wanted index back := by
  induction front with
  | nil => simp [groupsOfAll]
  | cons node rest ih =>
      have behind : ¬ node.groups.length + (groupsOfAll rest).length + index <
          node.groups.length := by omega
      have later : node.groups.length + (groupsOfAll rest).length + index - node.groups.length =
          (groupsOfAll rest).length + index := by omega
      rw [List.cons_append, rejoinAll, groupsOfAll, List.length_append, if_neg behind, later, ih]
      rfl

theorem isEmpty_rejoinAll : (rejoinAll wanted index nodes).isEmpty = nodes.isEmpty := by
  cases nodes with
  | nil => rfl
  | cons node rest =>
      rw [rejoinAll]
      split <;> rfl

theorem groupsOfAll_groupOf {combinator : Combinator} (filled : nodes.isEmpty = false) :
    groupsOfAll (groupOf combinator nodes) = ⟨combinator, nodes⟩ :: groupsOfAll nodes := by
  simp [groupOf, filled, groupsOfAll, groups]

theorem rejoinAll_groupOf {combinator : Combinator}
    (within : index < (groupsOfAll nodes).length) :
    rejoinAll wanted (index + 1) (groupOf combinator nodes) =
      groupOf combinator (rejoinAll wanted index nodes) := by
  cases nodes with
  | nil => cases within
  | cons node rest =>
      have here : index + 1 < (RuleNode.group combinator (node :: rest)).groups.length :=
        Nat.succ_lt_succ within
      simp only [groupOf, isEmpty_rejoinAll, List.isEmpty_cons, Bool.false_eq_true, if_false]
      rw [rejoinAll, if_pos here, rejoin, if_neg (Nat.succ_ne_zero index), Nat.add_sub_cancel]

theorem rejoinAll_groupOf_zero :
    rejoinAll wanted 0 (groupOf found nodes) = groupOf wanted nodes := by
  cases nodes <;> rfl

mutual

theorem combinators_rejoin (node : RuleNode) (index : Nat) :
    (node.rejoin wanted index).groups.map RuleGroup.combinator =
      (node.groups.map RuleGroup.combinator).modify index fun _ => wanted := by
  match node with
  | .rule leaf => simp [rejoin, groups]
  | .group combinator members =>
      cases index with
      | zero => rfl
      | succ index => simp [rejoin, groups, combinators_rejoinAll members]

theorem combinators_rejoinAll (nodes : List RuleNode) (index : Nat) :
    (groupsOfAll (rejoinAll wanted index nodes)).map RuleGroup.combinator =
      ((groupsOfAll nodes).map RuleGroup.combinator).modify index fun _ => wanted := by
  match nodes with
  | [] => simp [rejoinAll, groupsOfAll]
  | node :: rest =>
      rw [rejoinAll, groupsOfAll, List.map_append, modify_append, List.length_map]
      split
      next => rw [groupsOfAll, List.map_append, combinators_rejoin node]
      next => rw [groupsOfAll, List.map_append, combinators_rejoinAll rest]

end

end RuleNode

def RuleGroup.rejoin (group : RuleGroup) (wanted : Combinator) : Nat → RuleGroup
  | 0 => { group with combinator := wanted }
  | index + 1 => { group with members := RuleNode.rejoinAll wanted index group.members }

theorem RuleGroup.combinators_rejoin (group : RuleGroup) :
    (group.rejoin wanted index).toNode.groups.map RuleGroup.combinator =
      (group.toNode.groups.map RuleGroup.combinator).modify index fun _ => wanted := by
  cases index with
  | zero => rfl
  | succ index =>
      simp [rejoin, toNode, RuleNode.groups, RuleNode.combinators_rejoinAll group.members]

/-- The number of opening brackets that hold a value, where some more tokens follow. -/
def keptOpenings : List Token → List Token → Nat
  | [], _ => 0
  | .bracket .opening :: rest, back =>
      (if holdsValue 0 (rest ++ back) then 1 else 0) + keptOpenings rest back
  | _ :: rest, back => keptOpenings rest back

theorem keptOpenings_append {rest : List Token} :
    keptOpenings (front ++ back) rest =
      keptOpenings front (back ++ rest) + keptOpenings back rest := by
  induction front with
  | nil => simp [keptOpenings]
  | cons token front ih =>
      rcases token with _ | _ | _ | _ | (_ | _) <;>
        simp only [List.cons_append, keptOpenings, ih, List.append_assoc, Nat.add_assoc]

def Mark.isOpening : Mark → Bool
  | .opening _ => true
  | _ => false

theorem countP_isOpening_rule (rule : Option Rule) :
    (rule.map Mark.rule).toList.countP Mark.isOpening = 0 := by
  cases rule <;> rfl

theorem countP_isOpening_outline (kept : List Bool) :
    (outline kept tokens).countP Mark.isOpening = keptOpenings tokens [] := by
  induction tokens generalizing kept with
  | nil => rfl
  | cons token rest ih =>
      cases token with
      | field | operator | value | combinator =>
          simp only [outline, keptOpenings, List.countP_append, countP_isOpening_rule, ih,
            Nat.zero_add]
      | bracket half =>
          cases half with
          | opening =>
              simp only [outline, keptOpenings, List.countP_append, ih, List.append_nil]
              split <;> rfl
          | closing =>
              cases kept with
              | nil => exact ih []
              | cons keep kept =>
                  rw [outline, List.countP_append, ih]
                  cases keep <;> simp [keptOpenings, Mark.isOpening]

namespace RuleNode

mutual

theorem countP_isOpening_marks (node : RuleNode) :
    node.marks.countP Mark.isOpening = node.groups.length := by
  match node with
  | .rule leaf => rfl
  | .group combinator members =>
      have inside := countP_isOpening_marksOfAll members
      simp only [marks, groups, List.countP_cons, List.countP_append, inside, List.countP_nil,
        List.length_cons]
      rfl

theorem countP_isOpening_marksOfAll (nodes : List RuleNode) :
    (marksOfAll nodes).countP Mark.isOpening = (groupsOfAll nodes).length := by
  match nodes with
  | [] => rfl
  | node :: rest =>
      rw [marksOfAll, groupsOfAll, List.countP_append, List.length_append,
        countP_isOpening_marks node, countP_isOpening_marksOfAll rest]

end

end RuleNode

theorem Reads.keptOpenings_eq (reads : Reads tokens nodes) (rest : List Token) :
    keptOpenings tokens rest = (RuleNode.groupsOfAll nodes).length := by
  have outlined := congrArg (List.countP Mark.isOpening) (reads.outlined [] rest)
  rw [List.countP_append, countP_isOpening_outline, countP_isOpening_outline,
    RuleNode.countP_isOpening_marksOfAll, keptOpenings_append, List.append_nil] at outlined
  omega

/-- A member whose group gets another combinator changes that group of the whole phrase. -/
theorem Holds.rejoin (holds : Holds schema phrase front back)
    (alike : Counterparts schema .member tokens others nodes
      (RuleNode.rejoinAll wanted index nodes))
    (within : index < (RuleNode.groupsOfAll nodes).length) :
    ∃ whole number, number + index < (RuleNode.groupsOfAll whole).length ∧
      (∀ rest, keptOpenings front (tokens ++ (back ++ rest)) = number) ∧
      Counterparts schema phrase (front ++ tokens ++ back) (front ++ others ++ back) whole
        (RuleNode.rejoinAll wanted (number + index) whole) := by
  -- The brackets in front look for a value behind the member, so the number has to be the same
  -- whatever the phrase stands in.
  induction holds with
  | here => exact ⟨nodes, 0, by simpa using within, fun _ => rfl, by simpa using alike⟩
  | @group combinator front back holds ih =>
      obtain ⟨whole, number, counted, count, alike⟩ := ih
      have filled : whole.isEmpty = false := by
        cases whole with
        | nil => cases counted
        | cons node rest => rfl
      refine ⟨groupOf (combinatorOf (front ++ tokens ++ back)) whole, number + 1, ?_, ?_, ?_⟩
      · rw [RuleNode.groupsOfAll_groupOf filled, List.length_cons]
        omega
      · intro rest
        have kept := alike.reads.holdsValue_eq alike.derives rest
        rw [filled] at kept
        have counts := count (.bracket .closing :: rest)
        simp only [List.append_assoc, List.cons_append, List.nil_append] at kept counts ⊢
        rw [keptOpenings, kept, counts, Nat.add_comm]
        rfl
      · rw [Nat.add_right_comm, RuleNode.rejoinAll_groupOf counted]
        simpa using alike.group
  | single only ih =>
      obtain ⟨whole, number, counted, count, alike⟩ := ih
      exact ⟨whole, number, counted, count, alike.single⟩
  | @left combinator front back last holds member ih =>
      obtain ⟨whole, number, counted, count, alike⟩ := ih
      obtain ⟨lastNodes, reads⟩ := member.reads
      refine ⟨whole ++ lastNodes, number, ?_, ?_, ?_⟩
      · rw [RuleNode.groupsOfAll_append, List.length_append]
        omega
      · intro rest
        rw [List.append_assoc back]
        exact count _
      · rw [RuleNode.rejoinAll_append_left counted]
        simpa using alike.left member reads
  | @right combinator first front back derives holds ih =>
      obtain ⟨whole, number, counted, count, alike⟩ := ih
      obtain ⟨firstNodes, reads⟩ := derives.reads
      refine ⟨firstNodes ++ whole, (RuleNode.groupsOfAll firstNodes).length + number, ?_, ?_, ?_⟩
      · rw [RuleNode.groupsOfAll_append, List.length_append]
        omega
      · intro rest
        rw [keptOpenings_append, reads.keptOpenings_eq]
        exact congrArg (_ + ·) (count rest)
      · rw [Nat.add_assoc, RuleNode.rejoinAll_append_right]
        simpa using alike.right derives reads

/-- Whether a group is another one but for the combinator of the scope in which a combinator stands.
The scope is that of the whole group, or of the group that the innermost open bracket becomes.  If
there is no value behind that bracket, it becomes none and nothing changes. -/
def RejoinsScope (before after : List Token) (found wanted : Combinator)
    (group edited : RuleGroup) : Prop :=
  (IsLevel before ∧ edited = group.rejoin wanted 0) ∨
    ∃ front inner, before = front ++ .bracket .opening :: inner ∧ IsLevel inner ∧
      edited = if holdsValue 0 (inner ++ .combinator found :: after) then
          group.rejoin wanted (keptOpenings (front ++ [.bracket .opening])
            (inner ++ .combinator found :: after))
        else group

variable {before after inner rest : List Token} {combinator : Combinator}

theorem Derives.join_members (left : Derives schema (.members combinator) front)
    (right : Derives schema (.members combinator) back) :
    Derives schema (.members combinator) (front ++ .combinator combinator :: back) := by
  generalize isMembers : Phrase.members combinator = phrase at right
  induction right with
  | rule | emptyGroup | group => cases isMembers
  | single only =>
      cases isMembers
      exact .join left only
  | join inFront member ih =>
      cases isMembers
      have joined := Derives.join (ih rfl) member
      rwa [List.append_assoc] at joined

/-- Members that are joined by another combinator are read into the same nodes. -/
theorem exists_rejoined (left : Derives schema (.members found) inner)
    (right : Derives schema (.members found) rest)
    (may : (Derives schema .member inner ∧ Derives schema .member rest) ∨ found = wanted) :
    ∃ nodes, Derives schema (.members found) (inner ++ .combinator found :: rest) ∧
      Derives schema (.members wanted) (inner ++ .combinator wanted :: rest) ∧
      combinatorOf (inner ++ .combinator wanted :: rest) = wanted ∧
      Reads (inner ++ .combinator found :: rest) nodes ∧
      Reads (inner ++ .combinator wanted :: rest) nodes := by
  have derives := left.join_members right
  rcases may with ⟨first, last⟩ | rfl
  · obtain ⟨nodes, reads⟩ := first.reads
    obtain ⟨lastNodes, lastReads⟩ := last.reads
    have firstWanted : Derives schema (.members wanted) inner := .single first
    refine ⟨nodes ++ lastNodes, derives, .join firstWanted last, ?_,
      reads.join left last lastReads, reads.join firstWanted last lastReads⟩
    rw [combinatorOf, firstWanted.combinatorAhead_join, Option.getD_some]
  · obtain ⟨nodes, reads⟩ := derives.reads
    refine ⟨nodes, derives, derives, ?_, reads, reads⟩
    rw [combinatorOf, left.combinatorAhead_join, Option.getD_some]

theorem Holds.rejoinsScope (holds : Holds schema phrase front back)
    (left : Derives schema (.members found) inner) (right : Derives schema (.members found) rest)
    (may : (Derives schema .member inner ∧ Derives schema .member rest) ∨ found = wanted) :
    ∃ nodes others,
      Counterparts schema phrase
        (front ++ .bracket .opening :: inner ++
          .combinator found :: (rest ++ .bracket .closing :: back))
        (front ++ .bracket .opening :: inner ++
          .combinator wanted :: (rest ++ .bracket .closing :: back)) nodes others ∧
      ∀ joining, RejoinsScope (front ++ .bracket .opening :: inner)
        (rest ++ .bracket .closing :: back) found wanted ⟨joining, nodes⟩ ⟨joining, others⟩ := by
  obtain ⟨nodes, inside, rejoined, joining, reads, rereads⟩ := exists_rejoined left right may
  have joinsFound : combinatorOf (inner ++ .combinator found :: rest) = found := by
    rw [combinatorOf, left.combinatorAhead_join, Option.getD_some]
  have alike := Counterparts.of_members (.group inside) (.group rejoined) (reads.bracket inside)
    (rereads.bracket rejoined)
  rw [joinsFound, joining] at alike
  have keeps : holdsValue 0 (inner ++ .combinator found ::
      (rest ++ .bracket .closing :: back)) = !nodes.isEmpty := by
    rw [← reads.holdsValue_eq inside back, List.append_assoc, List.cons_append]
  cases filled : nodes.isEmpty with
  | true =>
      cases List.isEmpty_iff.mp filled
      obtain ⟨whole, alike⟩ := holds.reread alike
      refine ⟨whole, whole, by simpa using alike, ?_⟩
      intro joining
      refine .inr ⟨front, inner, rfl, left.isLevel, ?_⟩
      rw [keeps, filled]
      rfl
  | false =>
      have one : 0 < (RuleNode.groupsOfAll (groupOf found nodes)).length := by
        rw [RuleNode.groupsOfAll_groupOf filled]
        exact Nat.zero_lt_succ _
      rw [← @RuleNode.rejoinAll_groupOf_zero nodes wanted found] at alike
      obtain ⟨whole, number, -, count, alike⟩ := holds.rejoin alike one
      refine ⟨whole, _, by simpa using alike, ?_⟩
      intro joining
      refine .inr ⟨front, inner, rfl, left.isLevel, ?_⟩
      have counts := count []
      simp only [List.append_assoc, List.cons_append, List.nil_append, List.append_nil] at counts
      rw [keptOpenings_append, keptOpenings, List.nil_append, keeps, filled, List.singleton_append,
        counts]
      rfl

/-- A combinator that agrees with the others in its scope may be put in the place of one. -/
theorem Derives.rejoin
    (derives : Derives schema (.members combinator) (before ++ .combinator found :: after))
    (agrees : ∀ other, SharesScope before after other → other = wanted) :
    ∃ joining nodes others,
      Derives schema (.members joining) (before ++ .combinator wanted :: after) ∧
      Reads (before ++ .combinator found :: after) nodes ∧
      Reads (before ++ .combinator wanted :: after) others ∧
      RejoinsScope before after found wanted
        ⟨combinatorOf (before ++ .combinator found :: after), nodes⟩
        ⟨combinatorOf (before ++ .combinator wanted :: after), others⟩ := by
  rcases derives.locate_combinator rfl with ⟨-, left, right⟩ |
    ⟨front, inner, rest, back, rfl, rfl, holds, left, right⟩
  · have may := left.single_or_eq right (List.suffix_refl _) (List.prefix_refl _) agrees
    obtain ⟨nodes, -, rejoined, joining, reads, rereads⟩ := exists_rejoined left right may
    refine ⟨wanted, nodes, nodes, rejoined, reads, rereads, .inl ⟨left.isLevel, ?_⟩⟩
    rw [joining]
    rfl
  · have ends : inner <:+ front ++ .bracket .opening :: inner :=
      ⟨front ++ [.bracket .opening], List.append_assoc _ _ _⟩
    have starts : rest <+: rest ++ .bracket .closing :: back := List.prefix_append _ _
    have may := left.single_or_eq right ends starts agrees
    obtain ⟨nodes, others, alike, rejoins⟩ := holds.rejoinsScope left right may
    refine ⟨combinator, nodes, others, alike.otherDerives, alike.reads, alike.otherReads, ?_⟩
    rw [alike.sameCombinator]
    exact rejoins _

theorem Inspection.untyped_fresh (candidates : TypeSet) : Untyped (.fresh candidates) := by
  intro isPending notValue
  have other : candidates ≠ .valueOnly := by
    simpa [Slot.fresh, Slot.isValueSlot] using notValue
  exact if_neg other

theorem Inspection.Untyped.reseed {slot : Slot} (untyped : Untyped slot) (candidates : TypeSet) :
    Untyped (slot.reseed candidates) := by
  cases slot with
  | resolved token => exact untyped
  | pending current text =>
      rw [Slot.reseed]
      split
      next same =>
        intro isPending notValue
        rw [beq_iff_eq] at same
        exact untyped rfl (same.trans notValue)
      next => exact untyped_fresh candidates

namespace Draft

variable {draft edited : Draft} {front back behind : List Slot} {token next : Token}

/-- What stands behind a combinator may stand behind another one. -/
theorem stays_behind_combinator {standing : Standing} {other : List Token}
    (admits : (standing.see (.combinator found)).Admits schema next) :
    (LegalValues.between schema (before ++ [.combinator wanted]) other).allows next = true := by
  have last : (before ++ [Token.combinator wanted]).getLast? = some (.combinator wanted) :=
    List.getLast?_concat
  cases next with
  | field name =>
      rw [LegalValues.between_field_iff, last]
      exact ⟨rfl, admits.2⟩
  | operator name =>
      obtain ⟨fieldName, field, previous, -⟩ := admits
      cases previous
  | value raw =>
      obtain ⟨operatorName, previous⟩ := admits
      cases previous
  | combinator later => cases admits.1
  | bracket half =>
      cases half with
      | opening =>
          rw [LegalValues.between_opening_iff, last]
          exact ⟨rfl, nofun⟩
      | closing =>
          rcases admits.1 with opened | ends
          · rw [Standing.see_previous] at opened
            cases opened
          · rw [Standing.see_previous] at ends
            cases ends

theorem eq_of_isCalled (called : token.IsCalled .combinator wanted.text) :
    token = .combinator wanted := by
  have named : Token.ofName? .combinator wanted.text = some (.combinator wanted) :=
    @Token.ofName?_text (.combinator wanted) nofun
  exact Option.some_inj.mp (called.named.symm.trans named)

/-- The token behind a combinator has no say in whether another one is taken. -/
theorem takes_combinator_iff (split : draft.slots = front ++ .resolved (.combinator found) :: back)
    (viable : Standing.start.Viable draft.schema
      (resolvedTokens front ++ .combinator found :: resolvedTokens back)) :
    draft.Takes front.length wanted.text .combinator ↔
      Agrees (scopeCombinator (resolvedTokens front) (resolvedTokens back)) wanted := by
  obtain ⟨-, ⟨ends, -⟩, behind⟩ := Standing.viable_append.mp viable
  rw [Standing.seeAll_previous, Standing.start, Option.or_none] at ends
  have stays : draft.LetsStay front.length (.combinator wanted) := by
    refine (letsStay_iff split).mpr ?_
    rintro next rest rfl
    have allowed := @stays_behind_combinator _ wanted found (resolvedTokens front) next _
      (resolvedTokens rest) behind.1
    exact ⟨LegalValues.follows_of_allows allowed, allowed⟩
  have legal : (LegalValues.between draft.schema (resolvedTokens front)
      (resolvedTokens back)).allows (.combinator wanted) = true ↔
        Agrees (scopeCombinator (resolvedTokens front) (resolvedTokens back)) wanted := by
    rw [LegalValues.between_combinator_iff, and_iff_right ends, scopeCombinator,
      Standing.start_combinator]
    rfl
  rw [takes_iff split (legalValues_resolved split), ← legal]
  constructor
  · rintro ⟨token, called, allowed, -⟩
    exact eq_of_isCalled called ▸ allowed
  · intro allowed
    exact ⟨.combinator wanted, ⟨rfl, rfl⟩, allowed, .inr stays⟩

theorem resolve_rejoins (valid : draft.violations = [])
    (split : draft.slots = front ++ .resolved (.combinator found) :: back)
    (agrees : ∀ other, SharesScope (resolvedTokens front) (resolvedTokens back) other →
      other = wanted)
    (done : draft.resolve front.length wanted.text .combinator = .ok edited) :
    edited.violations = [] ∧ ∃ group editedGroup, draft.ruleGroup = .ok group ∧
      edited.ruleGroup = .ok editedGroup ∧
      RejoinsScope (resolvedTokens front) (resolvedTokens back) found wanted group editedGroup := by
  have tokens : draft.tokens =
      resolvedTokens front ++ .combinator found :: resolvedTokens back := tokens_split split
  obtain ⟨combinator, derives⟩ := derives_of_valid valid tokens
  obtain ⟨joining, nodes, others, rejoined, reads, rereads, rejoins⟩ := derives.rejoin agrees
  obtain ⟨token, behind, called, -, refits, rfl⟩ :=
    (resolve_iff split (legalValues_resolved split)).mp done
  cases eq_of_isCalled called
  have untyped := ((validate_eq_nil_iff _ _).mp valid).1
  rw [split, List.forall_mem_append, List.forall_mem_cons] at untyped
  have untypedBehind := forall_mem_of_refit refits Inspection.untyped_fresh
    (fun _ _ untyped => untyped.reseed _) untyped.2.2
  have retyped : ∀ slot ∈ front ++ .resolved (.combinator wanted) :: behind,
      Inspection.Untyped slot :=
    List.forall_mem_append.mpr ⟨untyped.1, List.forall_mem_cons.mpr ⟨nofun, untypedBehind⟩⟩
  have retokened : (⟨draft.schema, front ++ .resolved (.combinator wanted) :: behind⟩ :
      Draft).tokens = resolvedTokens front ++ .combinator wanted :: resolvedTokens back :=
    taken_tokens refits
  rw [← tokens] at reads rejoins
  rw [← retokened] at rejoined rereads rejoins
  have stays := (validate_eq_nil_iff _ _).mpr ⟨retyped, .inr ⟨joining, rejoined⟩⟩
  exact ⟨stays, _, _, ruleGroup_of_reads valid reads, ruleGroup_of_reads stays rereads, rejoins⟩

/-- In a finished query a combinator can be replaced exactly by one that agrees with the others in
its scope.  The query stays finished, and in its group nothing changes but the combinator of that
scope. -/
theorem resolve_combinator (draft : Draft) (valid : draft.violations = [])
    (held : draft.slots[index]? = some (.resolved (.combinator found))) (wanted : Combinator) :
    (draft.Takes index wanted.text .combinator ↔
      ∀ other, SharesScope (resolvedTokens (draft.slots.take index))
        (resolvedTokens (draft.slots.drop (index + 1))) other → other = wanted) ∧
    ∀ edited, draft.resolve index wanted.text .combinator = .ok edited →
      edited.violations = [] ∧ ∃ group editedGroup, draft.ruleGroup = .ok group ∧
        edited.ruleGroup = .ok editedGroup ∧
        RejoinsScope (resolvedTokens (draft.slots.take index))
          (resolvedTokens (draft.slots.drop (index + 1))) found wanted group editedGroup := by
  obtain ⟨front, back, split, rfl⟩ := split_of_getElem? held
  have inFront : draft.slots.take front.length = front := by
    rw [split, List.take_left]
  have inBack : draft.slots.drop (front.length + 1) = back := by
    rw [split, drop_succ_length_append]
  rw [inFront, inBack]
  obtain ⟨combinator, derives⟩ := derives_of_valid valid (tokens_split split)
  have viable := (derives.passes rfl agrees_none : Passes _ _ .start _).viable
  have takes : draft.Takes front.length wanted.text .combinator ↔
      ∀ other, SharesScope (resolvedTokens front) (resolvedTokens back) other → other = wanted :=
    (takes_combinator_iff split viable).trans (derives.agrees_iff viable)
  exact ⟨takes, fun edited done => resolve_rejoins valid split (takes.mp ⟨edited, done⟩) done⟩

end Draft

/-- A draft with two scopes of one combinator each. -/
def pairedDraft : Draft :=
  ⟨.builtin,
    [.resolved (.bracket .opening), .resolved (.field "text"), .resolved (.operator "in"),
      .resolved (.value "\"a\""), .resolved (.combinator .or), .resolved (.field "text"),
      .resolved (.operator "in"), .resolved (.value "\"b\""), .resolved (.bracket .closing),
      .resolved (.combinator .and), .resolved (.field "classifier"), .resolved (.operator "in"),
      .resolved (.value "\"c\""), .fresh TokenType.value.follow]⟩

theorem pairedDraft_resolve_combinator : ¬ nestedDraft.Takes 4 "AND" .combinator ∧
    ∃ edited group editedGroup, pairedDraft.resolve 4 "AND" .combinator = .ok edited ∧
      edited.violations = [] ∧ pairedDraft.ruleGroup = .ok group ∧
      edited.ruleGroup = .ok editedGroup ∧
      RejoinsScope (resolvedTokens (pairedDraft.slots.take 4))
        (resolvedTokens (pairedDraft.slots.drop 5)) .or .and group editedGroup := by
  constructor
  · -- There is another combinator behind the empty brackets.
    have valid : nestedDraft.violations = [] := by
      rw [Draft.violations, validate]
      decide +kernel
    have held : nestedDraft.slots[4]? = some (.resolved (.combinator .or)) := rfl
    have shares : SharesScope (resolvedTokens (nestedDraft.slots.take 4))
        (resolvedTokens (nestedDraft.slots.drop 5)) .or :=
      .inr ⟨[.bracket .opening, .bracket .closing], _, rfl, .group .nil .nil⟩
    intro takes
    cases (nestedDraft.resolve_combinator valid held .and).1.mp takes _ shares
  · have valid : pairedDraft.violations = [] := by
      rw [Draft.violations, validate]
      decide +kernel
    have held : pairedDraft.slots[4]? = some (.resolved (.combinator .or)) := rfl
    obtain ⟨edited, done⟩ : pairedDraft.Takes 4 "AND" .combinator := ⟨_, rfl⟩
    obtain ⟨stays, group, editedGroup, parts⟩ :=
      (pairedDraft.resolve_combinator valid held .and).2 edited done
    exact ⟨edited, group, editedGroup, done, stays, parts⟩

end FilterQuery
