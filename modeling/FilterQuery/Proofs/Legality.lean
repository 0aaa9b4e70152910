import FilterQuery.LegalValues
import FilterQuery.Proofs.Standing

namespace FilterQuery

/-! The legal values of a place, told by where the query stands there.

They are computed from the nearest token, the scopes before the place, counts of brackets and a
search for the combinator.  Behind viable tokens this comes to what the standing admits, but for a
group directly inside another, and for what the tokens after the place rule out.
-/

variable {schema : Schema} {standing : Standing} {token : Token} {before after : List Token}

namespace Standing

/-- Whether a token may be taken next.  No group is taken directly inside another one. -/
def Offers (schema : Schema) (standing : Standing) (token : Token) : Prop :=
  standing.Admits schema token ∧
    (token = .bracket .opening → standing.previous ≠ some (.bracket .opening))

def Typable (schema : Schema) (standing : Standing) (tokens : List Token) : Prop :=
  standing.Along (Offers schema) tokens

theorem Typable.viable {tokens : List Token} (typable : standing.Typable schema tokens) :
    standing.Viable schema tokens :=
  typable.mono fun _ _ offered => offered.1

theorem Admits.depth (admits : standing.Admits schema token) :
    ((standing.see token).outer.length : Int) = standing.outer.length + token.weight := by
  cases token with
  | field | operator | value | combinator => exact (Int.add_zero _).symm
  | bracket half =>
      cases half with
      | opening => rfl
      | closing =>
          cases around : standing.outer with
          | nil => exact absurd around admits.2
          | cons combinator outer =>
              simp only [see_closing around, List.length_cons, Token.weight]
              omega

theorem Viable.depth {tokens : List Token} (viable : standing.Viable schema tokens) :
    ((standing.seeAll tokens).outer.length : Int) = standing.outer.length + balance tokens := by
  induction tokens generalizing standing with
  | nil => exact (Int.add_zero _).symm
  | cons token rest ih =>
      have first : ((standing.see token).outer.length : Int) =
          standing.outer.length + token.weight := viable.1.depth
      rw [seeAll_cons, ih viable.2, first, balance, Int.add_assoc]

theorem start_previous : (start.seeAll before).previous = before.getLast? := by
  rw [seeAll_previous, start, Option.or_none]

theorem start_combinator :
    (start.seeAll before).combinator = (ScopeStack.start.seeAll before).top.combinator := by
  have same : (ScopeStack.start.seeAll before).standing (before.getLast?.or none) =
      start.seeAll before := ScopeStack.standing_seeAll
  rw [← same]
  rfl

theorem start_depth (viable : start.Viable schema before) :
    ((start.seeAll before).outer.length : Int) = balance before := by
  rw [viable.depth]
  exact Int.zero_add _

end Standing

theorem scopeField_of_getLast? {name : String} (last : before.getLast? = some (.field name)) :
    (ScopeStack.start.seeAll before).top.field = some name := by
  obtain ⟨front, rfl⟩ := List.getLast?_eq_some_iff.mp last
  rw [ScopeStack.seeAll, List.foldl_append]
  rfl

namespace LegalValues

variable {context : SlotContext}

theorem any_legalFields {name : String} :
    ((legalFields schema context).any fun field => field.name == name) = true ↔
      context.predecessor ≠ some (.bracket .closing) ∧ (schema.field? name).isSome := by
  unfold legalFields
  split
  next closed => simp only [List.any_nil, closed, ne_eq, not_true, false_and, Bool.false_eq_true]
  next other => simp only [List.any_eq_true, Schema.field?, List.find?_isSome, other, ne_eq,
    not_false_eq_true, true_and]

theorem any_operatorsFor {field : Field} {name : String} :
    ((schema.operatorsFor field).any fun operator => operator.name == name) = true ↔
      (schema.operator? name).isSome ∧ name ∈ field.operators := by
  rw [List.any_eq_true, Schema.operatorsFor]
  constructor
  · intro offered
    obtain ⟨operator, listed, same⟩ := offered
    obtain ⟨listedName, declared, found⟩ := List.mem_filterMap.mp listed
    have named : listedName = name := (Schema.operator?_name found).symm.trans (beq_iff_eq.mp same)
    subst named
    exact ⟨Option.isSome_iff_exists.mpr ⟨operator, found⟩, declared⟩
  · intro named
    obtain ⟨known, declared⟩ := named
    obtain ⟨operator, found⟩ := Option.isSome_iff_exists.mp known
    exact ⟨operator, List.mem_filterMap.mpr ⟨name, declared, found⟩,
      beq_iff_eq.mpr (Schema.operator?_name found)⟩

theorem any_legalOperators {fieldName name : String}
    (scopeField : context.scopeField = some fieldName) :
    ((legalOperators schema context).any fun operator => operator.name == name) = true ↔
      ∃ field, schema.field? fieldName = some field ∧ (schema.operator? name).isSome ∧
        name ∈ field.operators := by
  rw [legalOperators, scopeField, Option.bind_some]
  cases found : schema.field? fieldName with
  | none => simp only [List.any_nil, Bool.false_eq_true, reduceCtorEq, false_and, exists_false]
  | some field => simp only [any_operatorsFor, Option.some.injEq, exists_eq_left']

theorem contains_legalCombinators {found : Combinator} :
    (legalCombinators context).contains found = true ↔
      context.predecessor ≠ none ∧ context.predecessor ≠ some (.bracket .opening) ∧
        ∀ first ∈ context.scopeCombinator, first = found := by
  unfold legalCombinators
  split
  next none => simp [none]
  next opened => simp [opened]
  next token some other =>
    have anything : found ∈ Combinator.all := by cases found <;> decide
    split
    next first same => simp_all [eq_comm]
    next free => simp_all

theorem contains_legalBrackets_opening :
    (legalBrackets context).contains .opening = mayOpen context := by
  unfold legalBrackets
  cases mayOpen context <;> cases mayClose context <;> rfl

theorem contains_legalBrackets_closing :
    (legalBrackets context).contains .closing = mayClose context := by
  unfold legalBrackets
  cases mayOpen context <;> cases mayClose context <;> rfl

theorem mayOpen_iff {previous : Option Token} (nearest : context.predecessor = previous) :
    (TypeSet.after (previous.map Token.type)).contains .group = true ∧ mayOpen context = true ↔
      startsMember previous = true ∧ previous ≠ some (.bracket .opening) := by
  unfold mayOpen
  rw [nearest]
  rcases previous with _ | (_ | _ | _ | _ | (_ | _)) <;>
    simp [TypeSet.after, TypeSet.initial, TokenType.follow, Token.type, startsMember]

theorem mayClose_iff : mayClose context = true ↔
    (context.closeBefore < context.openBefore ∧ 0 < context.unmatchedElsewhere) ∧
      ∀ combinator, context.predecessor ≠ some (.combinator combinator) := by
  unfold mayClose
  rw [Bool.and_eq_true, Bool.and_eq_true, decide_eq_true_iff, decide_eq_true_iff]
  apply and_congr_right'
  rcases context.predecessor with _ | (_ | _ | _ | _ | _) <;> simp [Token.type]

/-- A group may end where a bracket is open before the place and one is left open by all other
tokens. -/
theorem mayClose_between_iff : mayClose (.between before after) = true ↔
    (0 < balance before ∧ 0 < balance before + balance after) ∧
      ∀ combinator, before.getLast? ≠ some (.combinator combinator) := by
  have opened : (SlotContext.between before after).closeBefore <
      (SlotContext.between before after).openBefore ↔ 0 < balance before := by
    rw [balance_eq, SlotContext.between]
    simp only
    omega
  rw [mayClose_iff, opened]
  rfl

/-- A closing bracket is legal nowhere else, whatever the candidates are. -/
theorem opened_of_allows {candidates : TypeSet}
    (allowed : (of schema candidates (.between before after)).allows (.bracket .closing) = true) :
    0 < balance before ∧ 0 < balance before + balance after := by
  simp only [allows, of] at allowed
  split at allowed
  next =>
    rw [contains_legalBrackets_closing, mayClose_between_iff] at allowed
    exact allowed.1
  next => cases allowed

/-- What a place between tokens may take if its candidates are the types that may follow the
nearest token. -/
def between (schema : Schema) (before after : List Token) : LegalValues :=
  .of schema (.after (before.getLast?.map Token.type)) (.between before after)

section Between

theorem between_field_iff {name : String} :
    (between schema before after).allows (.field name) = true ↔
      startsMember before.getLast? = true ∧ (schema.field? name).isSome := by
  simp only [allows, between, of, ← follow_field_iff]
  split
  next may =>
    rw [any_legalFields]
    simp only [SlotContext.between, may, true_and]
  next mayNot => simp only [mayNot, List.any_nil, Bool.false_eq_true, false_and]

theorem between_operator_iff {name : String} :
    (between schema before after).allows (.operator name) = true ↔
      ∃ fieldName field, before.getLast? = some (.field fieldName) ∧
        schema.field? fieldName = some field ∧ (schema.operator? name).isSome ∧
        name ∈ field.operators := by
  simp only [allows, between, of]
  split
  next may =>
    obtain ⟨fieldName, last⟩ := follow_operator_iff.mp may
    have scopeField : (SlotContext.between before after).scopeField = some fieldName :=
      scopeField_of_getLast? last
    rw [any_legalOperators scopeField]
    simp only [last, Option.some.injEq, Token.field.injEq, exists_and_left, exists_eq_left']
  next mayNot =>
    have unnamed : ¬ ∃ name, before.getLast? = some (.field name) :=
      mt follow_operator_iff.mpr mayNot
    constructor
    · intro taken
      cases taken
    · intro applies
      obtain ⟨fieldName, _, last, _⟩ := applies
      exact absurd ⟨fieldName, last⟩ unnamed

theorem between_value_iff {raw : String} :
    (between schema before after).allows (.value raw) = true ↔
      ∃ name, before.getLast? = some (.operator name) :=
  follow_value_iff

theorem between_combinator_iff {found : Combinator} :
    (between schema before after).allows (.combinator found) = true ↔
      endsMember before.getLast? = true ∧
        ∀ other ∈ (ScopeStack.start.seeAll before).top.combinator.or (combinatorAhead 0 after),
          other = found := by
  simp only [allows, between, of, ← follow_combinator_iff]
  split
  next may =>
    have preceded : before.getLast? ≠ none := by
      intro nothing
      rw [nothing] at may
      cases may
    rw [contains_legalCombinators]
    simp only [SlotContext.between, may, true_and]
    exact and_iff_right preceded
  next mayNot => simp only [mayNot, List.contains_nil, Bool.false_eq_true, false_and]

theorem between_opening_iff :
    (between schema before after).allows (.bracket .opening) = true ↔
      startsMember before.getLast? = true ∧ before.getLast? ≠ some (.bracket .opening) := by
  have opens := @mayOpen_iff (.between before after) before.getLast? rfl
  simp only [allows, between, of, ← opens]
  split
  next may => rw [contains_legalBrackets_opening, and_iff_right may]
  next mayNot => simp only [mayNot, List.contains_nil, Bool.false_eq_true, false_and]

theorem between_closing_iff :
    (between schema before after).allows (.bracket .closing) = true ↔
      (before.getLast? = some (.bracket .opening) ∨ endsMember before.getLast? = true) ∧
        0 < balance before ∧ 0 < balance before + balance after := by
  simp only [allows, between, of, ← follow_closing_iff]
  split
  next may =>
    rw [contains_legalBrackets_closing, mayClose_between_iff]
    constructor
    · intro closes
      obtain ⟨⟨nested, unmatched⟩, joins⟩ := closes
      have preceded : before.getLast? ≠ none := by
        intro nothing
        rw [List.getLast?_eq_none_iff.mp nothing] at nested
        exact absurd nested (Int.lt_irrefl 0)
      exact ⟨⟨may, preceded, joins⟩, nested, unmatched⟩
    · intro fitting
      obtain ⟨⟨_, _, joins⟩, nested, unmatched⟩ := fitting
      exact ⟨⟨nested, unmatched⟩, joins⟩
  next mayNot => simp only [mayNot, List.contains_nil, Bool.false_eq_true, false_and]

end Between
end LegalValues

/-- What the tokens around a place say about a token there, apart from the standing: whether the
scope goes on with the same combinator, and whether a bracket is left for a closing one. -/
def FitsAround (before after : List Token) : Token → Prop
  | .combinator found =>
      ∀ other ∈ (Standing.start.seeAll before).combinator.or (combinatorAhead 0 after),
        other = found
  | .bracket .closing => 0 < balance before + balance after
  | _ => True

/-- A token may be taken behind viable tokens exactly if it is offered where the query stands there
and fits to what stands around. -/
theorem between_allows_iff (viable : Standing.start.Viable schema before) :
    (LegalValues.between schema before after).allows token = true ↔
      (Standing.start.seeAll before).Offers schema token ∧ FitsAround before after token := by
  have nearest : (Standing.start.seeAll before).previous = before.getLast? :=
    Standing.start_previous
  cases token with
  | field name =>
      rw [LegalValues.between_field_iff]
      simp [Standing.Offers, Standing.Admits, nearest, FitsAround]
  | operator name =>
      rw [LegalValues.between_operator_iff]
      simp [Standing.Offers, Standing.Admits, nearest, FitsAround]
  | value raw =>
      rw [LegalValues.between_value_iff]
      simp [Standing.Offers, Standing.Admits, nearest, FitsAround]
  | combinator found =>
      rw [LegalValues.between_combinator_iff, ← Standing.start_combinator]
      simp only [Standing.Offers, Standing.Admits, nearest, FitsAround]
      constructor
      · intro allowed
        obtain ⟨ends, same⟩ := allowed
        refine ⟨⟨⟨ends, ?_⟩, fun opening => nomatch opening⟩, same⟩
        intro first known
        exact same first (by rw [known]; rfl)
      · intro offered
        obtain ⟨⟨⟨ends, _⟩, _⟩, same⟩ := offered
        exact ⟨ends, same⟩
  | bracket half =>
      cases half with
      | opening =>
          rw [LegalValues.between_opening_iff]
          simp [Standing.Offers, Standing.Admits, nearest, FitsAround]
      | closing =>
          have nested : 0 < balance before ↔ (Standing.start.seeAll before).outer ≠ [] := by
            rw [← Standing.start_depth viable, ne_eq, ← List.length_eq_zero_iff]
            omega
          rw [LegalValues.between_closing_iff, nested]
          simp [Standing.Offers, Standing.Admits, nearest, FitsAround, and_assoc]

/-- At the end of a query nothing stands behind a token that could rule it out. -/
theorem fitsAround_end (viable : Standing.start.Viable schema before)
    (offers : (Standing.start.seeAll before).Offers schema token) : FitsAround before [] token := by
  cases token with
  | field | operator | value => trivial
  | combinator found =>
      rw [FitsAround, combinatorAhead, Option.or_none]
      exact offers.1.2
  | bracket half =>
      cases half with
      | opening => trivial
      | closing =>
          have depth := Standing.start_depth viable
          have nested := List.length_pos_iff.mpr offers.1.2
          rw [FitsAround, balance]
          omega

end FilterQuery
