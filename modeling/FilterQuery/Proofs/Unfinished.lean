import FilterQuery.Proofs.Reports
import FilterQuery.SlotContext

namespace FilterQuery

/-- The violations that only say what is still to come: the rest of the last rule, a member after
the last combinator, and the ends of groups. -/
inductive Unfinished (tokens : List Token) : Violation → Prop
  | operator {front : List Token} {name : String} (last : tokens = front ++ [.field name]) :
      Unfinished tokens ⟨front.length, .incompleteRule .operator⟩
  | value {front : List Token} {name operator : String}
      (last : tokens = front ++ [.field name, .operator operator]) :
      Unfinished tokens ⟨front.length, .incompleteRule .value⟩
  | member {front : List Token} {found : Combinator}
      (last : tokens = front ++ [.combinator found]) :
      Unfinished tokens ⟨front.length, .danglingCombinator found⟩
  | closing {front inner : List Token} (opened : tokens = front ++ .bracket .opening :: inner)
      (unclosed : ∀ read, read <+: inner → 0 ≤ balance read) :
      Unfinished tokens ⟨front.length, .unbalancedGroup .opening⟩

def Violation.isIncompleteRule (violation : Violation) : Bool :=
  match violation.fault with
  | .incompleteRule _ => true
  | _ => false

/-- Whether a bracket stands open behind some tokens, inside it as many others as the depth says. -/
def OpenedAt (tokens : List Token) (depth index : Nat) : Prop :=
  ∃ front inner, tokens = front ++ .bracket .opening :: inner ∧ index = front.length ∧
    balance inner = depth ∧ ∀ read, read <+: inner → 0 ≤ balance read

theorem OpenedAt.snoc {tokens : List Token} {depth deeper index : Nat} {token : Token}
    (opened : OpenedAt tokens depth index) (weight : (deeper : Int) = depth + token.weight) :
    OpenedAt (tokens ++ [token]) deeper index := by
  obtain ⟨front, inner, rfl, rfl, balanced, unclosed⟩ := opened
  have whole : balance (inner ++ [token]) = deeper := by
    rw [balance_append, balanced, weight]
    exact congrArg _ (Int.add_zero _)
  refine ⟨front, inner ++ [token], ?_, rfl, whole, ?_⟩
  · rw [List.append_assoc, List.cons_append]
  · intro read begins
    rcases List.prefix_concat_iff.mp begins with rfl | shorter
    · rw [whole]
      exact Int.natCast_nonneg deeper
    · exact unclosed read shorter

namespace Inspection

variable {schema : Schema} {state : Inspection} {done tokens : List Token} {token : Token}

/-- The places that the check remembers after some tokens, one in each slot. -/
structure Located (state : Inspection) (done : List Token) : Prop where
  previous : state.previous = done.getLast?.map fun token => (done.length - 1, token)
  rule : ∀ index missing, state.openRule = some (index, missing) →
    Unfinished done ⟨index, .incompleteRule missing⟩
  opened : ∀ depth index, state.openedAt[depth]? = some index → OpenedAt done depth index

theorem located_start : start.Located [] :=
  ⟨rfl, (fun _ _ same => nomatch same), fun _ _ found => nomatch found⟩

theorem Located.see_previous : (state.see done.length token).previous =
    (done ++ [token]).getLast?.map fun last => ((done ++ [token]).length - 1, last) := by
  rw [List.getLast?_concat, List.length_append]
  rfl

theorem Located.see_rule (located : state.Located done) (coherent : state.Coherent schema)
    (admits : state.standing.Admits schema token) {index : Nat} {missing : TokenType}
    (begun : (state.see done.length token).openRule = some (index, missing)) :
    Unfinished (done ++ [token]) ⟨index, .incompleteRule missing⟩ := by
  have rule := coherent.rule
  cases token with
  | field name =>
      cases begun
      exact .operator rfl
  | operator name =>
      -- The rule began with the field right before the operator.
      obtain ⟨fieldName, field, previous, -⟩ := admits
      change state.previousToken = _ at previous
      rw [previous] at rule
      obtain ⟨⟨first, lacking⟩, found, same⟩ := Option.map_eq_some_iff.mp rule
      cases same
      simp only [Inspection.see, found, Option.map_some, Option.some.injEq, Prod.mk.injEq] at begun
      obtain ⟨rfl, rfl⟩ := begun
      cases located.rule _ _ found with
      | operator last =>
          subst last
          rw [List.append_assoc]
          exact .value rfl
  | value raw => cases begun
  | combinator found =>
      have nothing : state.openRule = none :=
        Option.map_eq_none_iff.mp (rule.trans (missingAfter_eq_none (.inr admits.1)))
      change state.openRule = _ at begun
      rw [nothing] at begun
      cases begun
  | bracket half =>
      have nothing : state.openRule = none :=
        Option.map_eq_none_iff.mp
          (rule.trans (missingAfter_eq_none (Standing.Admits.between admits)))
      change state.openRule = _ at begun
      rw [nothing] at begun
      cases begun

theorem Located.see_opened (located : state.Located done) {depth index : Nat}
    (found : (state.see done.length token).openedAt[depth]? = some index) :
    OpenedAt (done ++ [token]) depth index := by
  cases token with
  | field | operator | value | combinator =>
      exact (located.opened depth index found).snoc (Int.add_zero _).symm
  | bracket half =>
      cases half with
      | opening =>
          cases depth with
          | zero =>
              cases found
              refine ⟨done, [], rfl, rfl, rfl, ?_⟩
              intro read begins
              rw [List.prefix_nil.mp begins]
              exact Int.le_refl 0
          | succ depth =>
              exact (located.opened depth index found).snoc rfl
      | closing =>
          -- The innermost bracket is closed, and the others are one less deep.
          change state.openedAt.tail[depth]? = some index at found
          rw [List.getElem?_tail] at found
          refine (located.opened (depth + 1) index found).snoc ?_
          simp only [Token.weight]
          omega

theorem Located.see (located : state.Located done) (coherent : state.Coherent schema)
    (admits : state.standing.Admits schema token) :
    (state.see done.length token).Located (done ++ [token]) :=
  ⟨see_previous, fun _ _ => located.see_rule coherent admits, fun _ _ => located.see_opened⟩

theorem Located.seeAll {candidates : TypeSet} {text : String} (located : state.Located done)
    (coherent : state.Coherent schema) (viable : state.standing.Viable schema tokens) :
    (state.seeSlots done.length (tokens.map .resolved ++ [.pending candidates text])).Located
      (done ++ tokens) := by
  induction tokens generalizing state done with
  | nil =>
      rw [List.append_nil]
      exact located
  | cons token rest ih =>
      obtain ⟨admits, later⟩ := viable
      have next := ih (located.see coherent admits) (coherent.see admits) (standing_see ▸ later)
      rw [List.length_append, List.append_assoc] at next
      exact next

theorem Located.endViolations (located : state.Located tokens) {violation : Violation}
    (reported : violation ∈ state.endViolations) : Unfinished tokens violation := by
  rcases mem_endViolations_iff.mp reported with
    ⟨place, missing, begun, rfl⟩ | ⟨place, found, nearest, rfl⟩ | ⟨place, listed, rfl⟩
  · exact located.rule place missing begun
  · rw [located.previous] at nearest
    obtain ⟨last, isLast, placed⟩ := Option.map_eq_some_iff.mp nearest
    obtain ⟨front, rfl⟩ := List.getLast?_eq_some_iff.mp isLast
    rw [List.length_append] at placed
    cases placed
    exact .member rfl
  · obtain ⟨depth, opened⟩ := List.mem_iff_getElem?.mp listed
    obtain ⟨front, inner, split, rfl, -, unclosed⟩ := located.opened depth place opened
    exact .closing split unclosed

theorem countP_endViolations : state.endViolations.countP Violation.isIncompleteRule ≤ 1 := by
  have brackets : (state.openedAt.reverse.map fun index =>
      (⟨index, .unbalancedGroup .opening⟩ : Violation)).countP Violation.isIncompleteRule = 0 := by
    rw [List.countP_eq_zero]
    intro violation listed
    obtain ⟨index, _, rfl⟩ := List.mem_map.mp listed
    exact Bool.false_ne_true
  rw [Inspection.endViolations, List.countP_append, List.countP_append, brackets]
  split <;> split <;> simp [Violation.isIncompleteRule]

end Inspection

/-- On viable tokens with a pending slot behind them nothing is reported but what is still to
come. -/
theorem validate_unfinished {schema : Schema} {tokens : List Token} {candidates : TypeSet}
    {text : String} (untyped : candidates ≠ .valueOnly → text = "")
    (viable : Standing.start.Viable schema tokens) :
    (∀ violation ∈ validate schema (tokens.map .resolved ++ [.pending candidates text]),
      Unfinished tokens violation) ∧
    (validate schema (tokens.map .resolved ++ [.pending candidates text])).countP
      Violation.isIncompleteRule ≤ 1 := by
  have coherent : Inspection.start.Coherent schema := Inspection.coherent_start
  have read : resolvedTokens (tokens.map .resolved ++ [.pending candidates text]) = tokens := by
    rw [resolvedTokens_append, resolvedTokens_map]
    exact List.append_nil tokens
  have nothingTyped : ∀ slot ∈ tokens.map .resolved ++ [.pending candidates text],
      Inspection.Untyped slot := by
    intro slot listed isPending notValue
    rcases List.mem_append.mp listed with resolved | last
    · obtain ⟨token, _, rfl⟩ := List.mem_map.mp resolved
      cases isPending
    · cases List.mem_singleton.mp last
      exact untyped (by simpa [Slot.isValueSlot] using notValue)
  have noFaults : Inspection.start.faultsFrom schema 0
      (tokens.map .resolved ++ [.pending candidates text]) = [] :=
    coherent.faultsFrom_eq_nil_iff.mpr ⟨nothingTyped, read.symm ▸ viable⟩
  have located : (Inspection.start.seeSlots 0
      (tokens.map .resolved ++ [.pending candidates text])).Located tokens :=
    Inspection.located_start.seeAll coherent viable
  have found := validate_perm schema (tokens.map .resolved ++ [.pending candidates text])
  rw [noFaults, List.nil_append] at found
  constructor
  · intro violation reported
    exact located.endViolations (found.mem_iff.mp reported)
  · rw [found.countP_eq]
    exact Inspection.countP_endViolations

end FilterQuery
