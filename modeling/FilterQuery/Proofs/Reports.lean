import FilterQuery.Proofs.Inspection

namespace FilterQuery.Inspection

variable {schema : Schema} {state : Inspection} {token : Token} {fault : Fault}
  {violation : Violation} {index : Nat} {slots : List Slot}

inductive Finds (schema : Schema) (state : Inspection) : Token → Fault → Prop
  | unknownField {name : String} (unknown : schema.field? name = none) :
      Finds schema state (.field name) (.unknownName .field name)
  | unknownOperator {name : String} (unknown : schema.operator? name = none) :
      Finds schema state (.operator name) (.unknownName .operator name)
  | adjacency {token : Token}
      (unfit : (TypeSet.after (state.previousToken.map Token.type)).contains token.type = false) :
      Finds schema state token
        (.illegalAdjacency (state.previousToken.map Token.type) token.type)
  | fieldAfterGroup {name : String} (behind : state.previousToken = some (.bracket .closing)) :
      Finds schema state (.field name) (.fieldAfterGroup name)
  | mismatch {fieldName name : String} {field : Field}
      (latest : state.scopes.top.field = some fieldName)
      (found : schema.field? fieldName = some field) (known : (schema.operator? name).isSome)
      (undeclared : name ∉ field.operators) :
      Finds schema state (.operator name) (.operatorMismatch fieldName name)
  | leading {found : Combinator} (opened : state.previousToken = some (.bracket .opening)) :
      Finds schema state (.combinator found) (.leadingCombinator found)
  | mixed {first found : Combinator} (joined : state.scopes.top.combinator = some first)
      (differs : first ≠ found) :
      Finds schema state (.combinator found) (.mixedCombinators first found)
  | missing (ended : endsMember state.previousToken = true) :
      Finds schema state (.bracket .opening) .missingCombinator
  | dangling {found : Combinator} (joins : state.previousToken = some (.combinator found)) :
      Finds schema state (.bracket .closing) (.danglingCombinator found)
  | unopened (level : state.openedAt = []) :
      Finds schema state (.bracket .closing) (.unbalancedGroup .closing)

theorem mem_nameFaults_iff : fault ∈ nameFaults schema token ↔
    ∃ name, (token = .field name ∧ schema.field? name = none ∧
        fault = .unknownName .field name) ∨
      (token = .operator name ∧ schema.operator? name = none ∧
        fault = .unknownName .operator name) := by
  cases token with
  | field name => cases known : schema.field? name <;> simp [nameFaults, known]
  | operator name => cases known : schema.operator? name <;> simp [nameFaults, known]
  | value | combinator | bracket => simp [nameFaults]

theorem mem_adjacencyFaults_iff {previous : Option TokenType} {found : TokenType} :
    fault ∈ adjacencyFaults previous found ↔
      (TypeSet.after previous).contains found = false ∧
        fault = .illegalAdjacency previous found := by
  cases fits : (TypeSet.after previous).contains found <;> simp [adjacencyFaults, fits]

theorem mem_operatorFaults_iff {scopeField : Option String} {name : String} :
    fault ∈ operatorFaults schema scopeField name ↔
      ∃ fieldName field, scopeField = some fieldName ∧ schema.field? fieldName = some field ∧
        (schema.operator? name).isSome ∧ name ∉ field.operators ∧
        fault = .operatorMismatch fieldName name := by
  cases scopeField with
  | none => simp [operatorFaults]
  | some fieldName =>
      cases found : schema.field? fieldName with
      | none => simp [operatorFaults, found]
      | some field => cases known : schema.operator? name <;> simp [operatorFaults, found, known]

theorem mem_combinatorFaults_iff {found : Combinator} : fault ∈ state.combinatorFaults found ↔
    (state.previousToken = some (.bracket .opening) ∧ fault = .leadingCombinator found) ∨
      ∃ first, state.scopes.top.combinator = some first ∧ first ≠ found ∧
        fault = .mixedCombinators first found := by
  rw [combinatorFaults, List.mem_append]
  apply or_congr
  · by_cases opened : state.previousToken = some (.bracket .opening) <;> simp [opened]
  · cases state.scopes.top.combinator with
    | none => simp
    | some first => by_cases same : first = found <;> simp [same]

theorem mem_openingFaults_iff : fault ∈ state.openingFaults ↔
    endsMember state.previousToken = true ∧ fault = .missingCombinator := by
  rcases previous : state.previousToken with _ | (_ | _ | _ | _ | (_ | _)) <;>
    simp [openingFaults, previous, endsMember]

theorem mem_closingFaults_iff : fault ∈ state.closingFaults ↔
    (∃ found, state.previousToken = some (.combinator found) ∧
      fault = .danglingCombinator found) ∨
      state.openedAt = [] ∧ fault = .unbalancedGroup .closing := by
  rw [closingFaults, List.mem_append]
  apply or_congr
  · rcases previous : state.previousToken with _ | (_ | _ | _ | _ | _) <;> simp
  · cases state.openedAt <;> simp

theorem mem_tokenFaults_iff :
    fault ∈ state.tokenFaults schema token ↔ state.Finds schema token fault := by
  rw [tokenFaults, List.mem_append, List.mem_append, mem_nameFaults_iff, mem_adjacencyFaults_iff]
  constructor
  · intro found
    rcases found with (⟨name, ⟨rfl, unknown, rfl⟩ | ⟨rfl, unknown, rfl⟩⟩ | ⟨unfit, rfl⟩) | placed
    · exact .unknownField unknown
    · exact .unknownOperator unknown
    · exact .adjacency unfit
    · cases token with
      | field name =>
          simp only [placeFaults] at placed
          split at placed
          next behind =>
            rw [List.mem_singleton.mp placed]
            exact .fieldAfterGroup behind
          next => cases placed
      | operator name =>
          obtain ⟨fieldName, field, latest, found, known, undeclared, rfl⟩ :=
            mem_operatorFaults_iff.mp placed
          exact .mismatch latest found known undeclared
      | value raw => cases placed
      | combinator found =>
          rcases mem_combinatorFaults_iff.mp placed with ⟨opened, rfl⟩ | ⟨first, joined, differs, rfl⟩
          · exact .leading opened
          · exact .mixed joined differs
      | bracket half =>
          cases half with
          | opening =>
              obtain ⟨ended, rfl⟩ := mem_openingFaults_iff.mp placed
              exact .missing ended
          | closing =>
              rcases mem_closingFaults_iff.mp placed with ⟨found, joins, rfl⟩ | ⟨level, rfl⟩
              · exact .dangling joins
              · exact .unopened level
  · intro finds
    cases finds with
    | unknownField unknown => exact .inl (.inl ⟨_, .inl ⟨rfl, unknown, rfl⟩⟩)
    | unknownOperator unknown => exact .inl (.inl ⟨_, .inr ⟨rfl, unknown, rfl⟩⟩)
    | adjacency unfit => exact .inl (.inr ⟨unfit, rfl⟩)
    | fieldAfterGroup behind => simp [placeFaults, behind]
    | mismatch latest found known undeclared =>
        exact .inr (mem_operatorFaults_iff.mpr ⟨_, _, latest, found, known, undeclared, rfl⟩)
    | leading opened => exact .inr (mem_combinatorFaults_iff.mpr (.inl ⟨opened, rfl⟩))
    | mixed joined differs =>
        exact .inr (mem_combinatorFaults_iff.mpr (.inr ⟨_, joined, differs, rfl⟩))
    | missing ended => exact .inr (mem_openingFaults_iff.mpr ⟨ended, rfl⟩)
    | dangling joins => exact .inr (mem_closingFaults_iff.mpr (.inl ⟨_, joins, rfl⟩))
    | unopened level => exact .inr (mem_closingFaults_iff.mpr (.inr ⟨level, rfl⟩))

/-- What is found wrong with a slot: its token, or what was typed and not taken. -/
inductive FindsAt (schema : Schema) (state : Inspection) : Slot → Fault → Prop
  | resolved {token : Token} {fault : Fault} (finds : state.Finds schema token fault) :
      FindsAt schema state (.resolved token) fault
  | typed {slot : Slot} (typed : ¬ Untyped slot) :
      FindsAt schema state slot (.unresolvedSlot slot.text)

theorem findsAt_resolved_iff :
    state.FindsAt schema (.resolved token) fault ↔ state.Finds schema token fault := by
  constructor
  · intro finds
    cases finds with
    | resolved finds => exact finds
    | typed typed => exact absurd untyped_resolved typed
  · exact .resolved

theorem findsAt_pending_iff {candidates : TypeSet} {text : String} :
    state.FindsAt schema (.pending candidates text) fault ↔
      (text.isEmpty || candidates == .valueOnly) = false ∧ fault = .unresolvedSlot text := by
  constructor
  · intro finds
    cases finds with
    | typed typed => exact ⟨Bool.eq_false_iff.mpr (mt untyped_pending_iff.mpr typed), rfl⟩
  · intro typed
    obtain ⟨kept, rfl⟩ := typed
    exact .typed (mt untyped_pending_iff.mp (Bool.eq_false_iff.mp kept))

theorem mem_faultsFrom_cons {first : Slot} :
    violation ∈ state.faultsFrom schema index (first :: slots) ↔
      (violation.index = index ∧ state.FindsAt schema first violation.fault) ∨
        violation ∈ (state.seeSlots index [first]).faultsFrom schema (index + 1) slots := by
  obtain ⟨place, fault⟩ := violation
  cases first with
  | pending candidates text =>
      rw [faultsFrom, List.mem_append, findsAt_pending_iff]
      apply or_congr_left
      cases (text.isEmpty || candidates == .valueOnly) <;> simp
  | resolved token =>
      rw [faultsFrom, List.mem_append, findsAt_resolved_iff, ← mem_tokenFaults_iff]
      apply or_congr_left
      rw [List.mem_map]
      constructor
      · intro found
        obtain ⟨_, listed, same⟩ := found
        cases same
        exact ⟨rfl, listed⟩
      · intro found
        obtain ⟨rfl, listed⟩ := found
        exact ⟨fault, listed, rfl⟩

/-- Before the end each fault is found at a slot, after those in front of it have been seen. -/
theorem mem_faultsFrom_iff : violation ∈ state.faultsFrom schema index slots ↔
    ∃ passed slot, slots[passed]? = some slot ∧ violation.index = index + passed ∧
      (state.seeSlots index (slots.take passed)).FindsAt schema slot violation.fault := by
  induction slots generalizing state index with
  | nil => simp [faultsFrom]
  | cons first rest ih =>
      have seen : ∀ front, (state.seeSlots index [first]).seeSlots (index + 1) front =
          state.seeSlots index (first :: front) := by
        intro front
        cases first <;> rfl
      rw [mem_faultsFrom_cons, ih]
      constructor
      · intro found
        rcases found with ⟨place, finds⟩ | ⟨passed, slot, held, place, finds⟩
        · exact ⟨0, first, rfl, place, finds⟩
        · rw [seen] at finds
          exact ⟨passed + 1, slot, held, by omega, finds⟩
      · intro found
        obtain ⟨passed, slot, held, place, finds⟩ := found
        cases passed with
        | zero =>
            cases held
            exact .inl ⟨place, finds⟩
        | succ passed =>
            rw [List.take_succ_cons, ← seen] at finds
            exact .inr ⟨passed, slot, held, by omega, finds⟩

theorem mem_endViolations_iff : violation ∈ state.endViolations ↔
    (∃ place missing, state.openRule = some (place, missing) ∧
      violation = ⟨place, .incompleteRule missing⟩) ∨
    (∃ place found, state.previous = some (place, .combinator found) ∧
      violation = ⟨place, .danglingCombinator found⟩) ∨
    ∃ place ∈ state.openedAt, violation = ⟨place, .unbalancedGroup .opening⟩ := by
  rw [endViolations, List.mem_append, List.mem_append, or_assoc]
  refine or_congr ?_ (or_congr ?_ ?_)
  · rcases state.openRule with _ | ⟨place, missing⟩ <;> simp [and_assoc]
  · rcases state.previous with _ | ⟨place, _ | _ | _ | _ | _⟩ <;> simp [and_assoc]
  · simp [eq_comm]

theorem mem_validate_iff : violation ∈ validate schema slots ↔
    violation ∈ start.faultsFrom schema 0 slots ∨
      violation ∈ (start.seeSlots 0 slots).endViolations :=
  (validate_perm schema slots).mem_iff.trans List.mem_append

/-- Sorting by slots keeps violations of one kind as they are if they are in order already. -/
theorem filter_validate {kind : Violation → Bool}
    (order : ((start.violationsFrom schema 0 slots).filter kind).Pairwise
      fun first second => first.index ≤ second.index) :
    (validate schema slots).filter kind = (start.violationsFrom schema 0 slots).filter kind := by
  have stays : ((start.violationsFrom schema 0 slots).filter kind).Sublist
      (validate schema slots) := by
    refine List.sublist_mergeSort ?_ ?_ ?_ List.filter_sublist
    · intro first second third
      simp only [decide_eq_true_eq]
      exact Nat.le_trans
    · intro first second
      simp only [Bool.or_eq_true, decide_eq_true_eq]
      exact Nat.le_total _ _
    · exact order.imp fun ordered => decide_eq_true ordered
  have kept : ((start.violationsFrom schema 0 slots).filter kind).Sublist
      ((validate schema slots).filter kind) := by
    simpa only [List.filter_filter, Bool.and_self] using stays.filter kind
  exact (kept.eq_of_length ((List.mergeSort_perm _ _).filter kind).length_eq.symm).symm

end FilterQuery.Inspection
