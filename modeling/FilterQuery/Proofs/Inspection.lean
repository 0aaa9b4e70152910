import FilterQuery.Draft.Validation
import FilterQuery.Proofs.Standing

namespace FilterQuery

/-- The part that a rule lacks after the nearest token. -/
def missingAfter : Option Token → Option TokenType
  | some (.field _) => some .operator
  | some (.operator _) => some .value
  | _ => none

namespace Inspection

variable {schema : Schema} {state : Inspection} {token : Token} {index : Nat} {slots : List Slot}

def standing (state : Inspection) : Standing :=
  state.scopes.standing state.previousToken

@[simp] theorem standing_start : start.standing = .start := rfl

@[simp] theorem standing_see : (state.see index token).standing = state.standing.see token :=
  ScopeStack.standing_see

/-- What the check carries agrees with the standing. -/
structure Coherent (schema : Schema) (state : Inspection) : Prop where
  first : state.previousToken = none → state.openedAt = []
  opening : state.previousToken = some (.bracket .opening) → state.openedAt ≠ []
  opened : state.openedAt.length = state.scopes.outer.length
  field : ∀ name, state.previousToken = some (.field name) →
    state.scopes.top.field = some name ∧ (schema.field? name).isSome
  rule : state.openRule.map Prod.snd = missingAfter state.previousToken

theorem coherent_start : start.Coherent schema :=
  ⟨fun _ => rfl, (fun same => nomatch same), rfl, (fun _ same => nomatch same), rfl⟩

theorem Coherent.openedAt_eq_nil_iff (coherent : state.Coherent schema) :
    state.openedAt = [] ↔ state.standing.outer = [] := by
  rw [← List.length_eq_zero_iff, coherent.opened, List.length_eq_zero_iff, standing,
    ScopeStack.standing, List.map_eq_nil_iff]

theorem missingAfter_eq_none {previous : Option Token}
    (between : startsMember previous = true ∨ endsMember previous = true) :
    missingAfter previous = none := by
  match previous, between with
  | none, _ => rfl
  | some (.value _), _ => rfl
  | some (.combinator _), _ => rfl
  | some (.bracket _), _ => rfl

theorem coherent_of_nearest (nearest : state.previousToken = some token)
    (unopened : token ≠ .bracket .opening) (unnamed : ∀ name, token ≠ .field name)
    (opened : state.openedAt.length = state.scopes.outer.length)
    (rule : state.openRule.map Prod.snd = missingAfter state.previousToken) :
    state.Coherent schema := by
  refine ⟨?_, ?_, opened, ?_, rule⟩
  · intro nothing
    rw [nearest] at nothing
    cases nothing
  · intro same
    rw [nearest] at same
    exact absurd (Option.some.inj same) unopened
  · intro name same
    rw [nearest] at same
    exact absurd (Option.some.inj same) (unnamed name)

theorem Coherent.see (coherent : state.Coherent schema)
    (admits : state.standing.Admits schema token) : (state.see index token).Coherent schema := by
  have openRule := coherent.rule
  cases token with
  | field name =>
      refine ⟨nofun, nofun, coherent.opened, ?_, rfl⟩
      intro found same
      cases same
      exact ⟨rfl, admits.2⟩
  | operator name =>
      refine coherent_of_nearest rfl nofun nofun coherent.opened ?_
      obtain ⟨fieldName, field, previous, -⟩ := admits
      change state.previousToken = some (.field fieldName) at previous
      rw [previous] at openRule
      obtain ⟨rule, found, -⟩ := Option.map_eq_some_iff.mp openRule
      simp only [Inspection.see, found, Option.map_some]
      rfl
  | value raw => exact coherent_of_nearest rfl nofun nofun coherent.opened rfl
  | combinator found =>
      refine coherent_of_nearest rfl nofun nofun coherent.opened ?_
      exact openRule.trans (missingAfter_eq_none (.inr admits.1))
  | bracket half =>
      cases half with
      | opening =>
          refine ⟨nofun, fun _ => List.cons_ne_nil _ _, congrArg (· + 1) coherent.opened, nofun, ?_⟩
          exact openRule.trans (missingAfter_eq_none (Standing.Admits.between admits))
      | closing =>
          refine coherent_of_nearest rfl nofun nofun ?_ ?_
          · have opened := coherent.opened
            simp only [Inspection.see, ScopeStack.see, List.length_tail]
            cases outer : state.scopes.outer with
            | nil => simp only [opened, outer, List.length_nil]
            | cons scope rest => simp only [opened, outer, List.length_cons]; rfl
          · exact openRule.trans (missingAfter_eq_none (Standing.Admits.between admits))

theorem nameFaults_field_eq_nil_iff {name : String} :
    nameFaults schema (.field name) = [] ↔ (schema.field? name).isSome := by
  simp only [nameFaults]
  split <;> simp_all

theorem nameFaults_operator_eq_nil_iff {name : String} :
    nameFaults schema (.operator name) = [] ↔ (schema.operator? name).isSome := by
  simp only [nameFaults]
  split <;> simp_all

theorem adjacencyFaults_eq_nil_iff {previous : Option TokenType} {found : TokenType} :
    adjacencyFaults previous found = [] ↔ (TypeSet.after previous).contains found = true := by
  unfold adjacencyFaults
  split <;> simp_all

theorem openingFaults_eq_nil_iff : state.openingFaults = [] ↔
    state.previousToken ≠ some (.bracket .closing) ∧
      ∀ raw, state.previousToken ≠ some (.value raw) := by
  unfold openingFaults
  split <;> simp_all

theorem closingFaults_eq_nil_iff : state.closingFaults = [] ↔
    (∀ combinator, state.previousToken ≠ some (.combinator combinator)) ∧
      state.openedAt ≠ [] := by
  unfold closingFaults
  rw [List.append_eq_nil_iff]
  apply and_congr
  · split <;> simp_all
  · split <;> simp_all

theorem combinatorFaults_eq_nil_iff {found : Combinator} : state.combinatorFaults found = [] ↔
    state.previousToken ≠ some (.bracket .opening) ∧
      ∀ first ∈ state.scopes.top.combinator, first = found := by
  unfold combinatorFaults
  rw [List.append_eq_nil_iff]
  apply and_congr
  · split <;> simp_all
  · split
    next first same =>
      rw [same]
      split <;> simp_all
    next none =>
      rw [none]
      simp only [Option.mem_def, reduceCtorEq, false_imp_iff, implies_true]

/-- Where the latest field of the scope is known, an operator is without fault if it is declared on
that field. -/
theorem operatorFaults_eq_nil_iff {fieldName name : String} {field : Field}
    (found : schema.field? fieldName = some field) (known : (schema.operator? name).isSome) :
    operatorFaults schema (some fieldName) name = [] ↔ name ∈ field.operators := by
  obtain ⟨operator, same⟩ := Option.isSome_iff_exists.mp known
  simp only [operatorFaults, found, same]
  split <;> simp_all

theorem Coherent.tokenFaults_eq_nil_iff (coherent : state.Coherent schema) :
    state.tokenFaults schema token = [] ↔ state.standing.Admits schema token := by
  unfold tokenFaults
  rw [List.append_eq_nil_iff, List.append_eq_nil_iff, adjacencyFaults_eq_nil_iff]
  cases token with
  | field name =>
      have placed : state.placeFaults schema (.field name) = [] ↔
          state.previousToken ≠ some (.bracket .closing) := by
        unfold placeFaults
        split <;> simp_all
      rw [nameFaults_field_eq_nil_iff, placed, and_assoc]
      exact and_comm.trans (and_congr_left' follow_field_iff)
  | operator name =>
      rw [nameFaults_operator_eq_nil_iff]
      simp only [placeFaults, Token.type, Standing.Admits, follow_operator_iff]
      constructor
      · intro faultless
        obtain ⟨⟨known, fieldName, previous⟩, declared⟩ := faultless
        obtain ⟨scopeField, fieldKnown⟩ := coherent.field fieldName previous
        obtain ⟨field, found⟩ := Option.isSome_iff_exists.mp fieldKnown
        rw [scopeField, operatorFaults_eq_nil_iff found known] at declared
        exact ⟨fieldName, field, previous, found, known, declared⟩
      · intro admitted
        obtain ⟨fieldName, field, previous, found, known, declared⟩ := admitted
        refine ⟨⟨known, fieldName, previous⟩, ?_⟩
        rw [(coherent.field fieldName previous).1, operatorFaults_eq_nil_iff found known]
        exact declared
  | value raw =>
      simp only [nameFaults, placeFaults, Token.type, Standing.Admits, follow_value_iff, true_and,
        and_true]
      rfl
  | combinator found =>
      simp only [nameFaults, placeFaults, Token.type, Standing.Admits,
        combinatorFaults_eq_nil_iff, ← follow_combinator_iff, true_and, and_assoc]
      rfl
  | bracket half =>
      cases half with
      | opening =>
          simp only [nameFaults, placeFaults, Token.type, Standing.Admits,
            openingFaults_eq_nil_iff, ← follow_opening_iff, true_and]
          rfl
      | closing =>
          simp only [nameFaults, placeFaults, Token.type, Standing.Admits,
            closingFaults_eq_nil_iff, ← follow_closing_iff, true_and, ne_eq,
            coherent.openedAt_eq_nil_iff]
          change _ ↔ (_ ∧ state.previousToken ≠ none ∧ _) ∧ _
          constructor
          · intro faultless
            obtain ⟨follows, joins, nested⟩ := faultless
            refine ⟨⟨follows, ?_, joins⟩, nested⟩
            intro nothing
            exact nested (coherent.openedAt_eq_nil_iff.mp (coherent.first nothing))
          · intro admitted
            obtain ⟨⟨follows, _, joins⟩, nested⟩ := admitted
            exact ⟨follows, joins, nested⟩

/-- The faults that are found before the end of the row. -/
def faultsFrom (schema : Schema) (state : Inspection) (index : Nat) : List Slot → List Violation
  | [] => []
  | .pending candidates text :: rest =>
      (if text.isEmpty || candidates == .valueOnly then [] else [⟨index, .unresolvedSlot text⟩]) ++
        state.faultsFrom schema (index + 1) rest
  | .resolved token :: rest =>
      (state.tokenFaults schema token).map (⟨index, ·⟩) ++
        (state.see index token).faultsFrom schema (index + 1) rest

def seeSlots (state : Inspection) (index : Nat) : List Slot → Inspection
  | [] => state
  | .pending _ _ :: rest => state.seeSlots (index + 1) rest
  | .resolved token :: rest => (state.see index token).seeSlots (index + 1) rest

theorem violationsFrom_eq : state.violationsFrom schema index slots =
    state.faultsFrom schema index slots ++ (state.seeSlots index slots).endViolations := by
  induction slots generalizing state index with
  | nil => rfl
  | cons slot rest ih =>
      cases slot with
      | pending candidates text =>
          simp only [violationsFrom, faultsFrom, seeSlots, ih, List.append_assoc]
      | resolved token => simp only [violationsFrom, faultsFrom, seeSlots, ih, List.append_assoc]

@[simp] theorem standing_seeSlots :
    (state.seeSlots index slots).standing = state.standing.seeAll (resolvedTokens slots) := by
  induction slots generalizing state index with
  | nil => rfl
  | cons slot rest ih =>
      cases slot with
      | pending candidates text => exact ih
      | resolved token =>
          change ((state.see index token).seeSlots (index + 1) rest).standing = _
          rw [ih, standing_see]
          rfl

theorem Coherent.seeSlots (coherent : state.Coherent schema)
    (viable : state.standing.Viable schema (resolvedTokens slots)) :
    (state.seeSlots index slots).Coherent schema := by
  induction slots generalizing state index with
  | nil => exact coherent
  | cons slot rest ih =>
      cases slot with
      | pending candidates text => exact ih coherent viable
      | resolved token =>
          obtain ⟨admits, later⟩ := viable
          exact ih (coherent.see admits) (standing_see ▸ later)

/-- Whether nothing was typed into a pending slot that does not wait for a value. -/
def Untyped (slot : Slot) : Prop :=
  slot.isPending = true → slot.isValueSlot = false → slot.text = ""

theorem untyped_resolved : Untyped (.resolved token) :=
  fun pending => nomatch pending

theorem untyped_pending_iff {candidates : TypeSet} {text : String} :
    Untyped (.pending candidates text) ↔ (text.isEmpty || candidates == .valueOnly) = true := by
  simp [Untyped, Slot.isPending, Slot.isValueSlot, Slot.text, Decidable.or_iff_not_imp_right]

theorem Coherent.faultsFrom_eq_nil_iff (coherent : state.Coherent schema) :
    state.faultsFrom schema index slots = [] ↔
      (∀ slot ∈ slots, Untyped slot) ∧ state.standing.Viable schema (resolvedTokens slots) := by
  induction slots generalizing state index with
  | nil => simp [faultsFrom, resolvedTokens, Standing.Viable]
  | cons slot rest ih =>
      rw [List.forall_mem_cons]
      cases slot with
      | pending candidates text =>
          rw [faultsFrom, List.append_eq_nil_iff, ih coherent, untyped_pending_iff, and_assoc]
          apply and_congr_left'
          split <;> simp_all
      | resolved token =>
          rw [faultsFrom, List.append_eq_nil_iff, List.map_eq_nil_iff,
            coherent.tokenFaults_eq_nil_iff]
          constructor
          · intro faultless
            obtain ⟨admits, none⟩ := faultless
            obtain ⟨nothing, later⟩ := (ih (coherent.see admits)).mp none
            exact ⟨⟨untyped_resolved, nothing⟩, admits, standing_see ▸ later⟩
          · intro admitted
            obtain ⟨⟨_, nothing⟩, admits, later⟩ := admitted
            exact ⟨admits, (ih (coherent.see admits)).mpr ⟨nothing, standing_see ▸ later⟩⟩

theorem nothingMissing_iff {previous : Option Token}
    (closed : previous ≠ some (.bracket .opening)) :
    (missingAfter previous = none ∧ ∀ combinator, previous ≠ some (.combinator combinator)) ↔
      previous = none ∨ endsMember previous = true := by
  rcases previous with _ | (_ | _ | _ | _ | (_ | _)) <;> simp_all [missingAfter, endsMember]

/-- Nothing is reported at the end exactly where a query may end. -/
theorem Coherent.endViolations_eq_nil_iff (coherent : state.Coherent schema) :
    state.endViolations = [] ↔ state.standing.Finished := by
  rw [endViolations, List.append_eq_nil_iff, List.append_eq_nil_iff, List.map_eq_nil_iff,
    List.reverse_eq_nil_iff]
  apply Iff.trans (b := (missingAfter state.previousToken = none ∧
    ∀ combinator, state.previousToken ≠ some (.combinator combinator)) ∧
      state.standing.outer = [])
  · refine and_congr (and_congr ?_ ?_) coherent.openedAt_eq_nil_iff
    · rw [← coherent.rule]
      split <;> simp_all
    · unfold previousToken
      split <;> simp_all
  · apply and_congr_left
    intro outermost
    apply nothingMissing_iff
    intro opening
    exact coherent.opening opening (coherent.openedAt_eq_nil_iff.mpr outermost)

end Inspection

theorem validate_perm (schema : Schema) (slots : List Slot) :
    (validate schema slots).Perm (Inspection.start.faultsFrom schema 0 slots ++
      (Inspection.start.seeSlots 0 slots).endViolations) := by
  rw [← Inspection.violationsFrom_eq]
  exact List.mergeSort_perm _ _

/-- A row of slots is without violations exactly if nothing was typed that was not taken, and the
tokens are viable and finished. -/
theorem validate_eq_nil_iff_viable {schema : Schema} {slots : List Slot} :
    validate schema slots = [] ↔ (∀ slot ∈ slots, Inspection.Untyped slot) ∧
      Standing.start.Viable schema (resolvedTokens slots) ∧
      (Standing.start.seeAll (resolvedTokens slots)).Finished := by
  have coherent : Inspection.start.Coherent schema := Inspection.coherent_start
  rw [← List.length_eq_zero_iff, (validate_perm schema slots).length_eq,
    List.length_eq_zero_iff, List.append_eq_nil_iff, coherent.faultsFrom_eq_nil_iff, and_assoc]
  apply and_congr_right'
  apply and_congr_right
  intro viable
  rw [(coherent.seeSlots viable).endViolations_eq_nil_iff, Inspection.standing_seeSlots,
    Inspection.standing_start]

end FilterQuery
