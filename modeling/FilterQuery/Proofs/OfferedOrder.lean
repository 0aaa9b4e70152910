import FilterQuery.Proofs.SchemaPrinting
import FilterQuery.Proofs.SessionSafety
import Mathlib.Data.List.Nodup

namespace FilterQuery

/-- What tells an entry apart from others. -/
def Suggestion.key (entry : Suggestion) : TokenType × String :=
  (entry.type, entry.name)

/-- Whether entries are of a type and have names of a list, in the order of the list. -/
structure ListsInOrder (type : TokenType) (names : List String) (entries : List Suggestion) :
    Prop where
  ofType : ∀ entry ∈ entries, entry.type = type
  inOrder : (entries.map Suggestion.name).Sublist names

namespace ListsInOrder

variable {type other : TokenType} {names more : List String} {entries others : List Suggestion}

theorem within (lists : ListsInOrder type names entries) (sublist : names.Sublist more) :
    ListsInOrder type more entries :=
  ⟨lists.ofType, lists.inOrder.trans sublist⟩

theorem type_ne (lists : ListsInOrder type names entries) (different : type ≠ other) :
    ∀ entry ∈ entries, entry.type ≠ other := by
  intro entry listed
  rw [lists.ofType entry listed]
  exact different

/-- Entries of one type are told apart by their names. -/
theorem nodup_key_iff (lists : ListsInOrder type names entries) :
    (entries.map Suggestion.key).Nodup ↔ (entries.map Suggestion.name).Nodup := by
  have keys : entries.map Suggestion.key = (entries.map Suggestion.name).map (type, ·) := by
    rw [List.map_map]
    exact List.map_congr_left fun entry listed => by
      rw [Suggestion.key, lists.ofType entry listed]
      rfl
  rw [keys, List.nodup_map_iff (Prod.mk_right_injective type)]

theorem nodup (lists : ListsInOrder type names entries) (distinct : names.Nodup) :
    (entries.map Suggestion.key).Nodup :=
  lists.nodup_key_iff.mpr (lists.inOrder.nodup distinct)

theorem nodup_key_append (front : ListsInOrder type names entries)
    (apart : ∀ entry ∈ others, entry.type ≠ type) :
    ((entries ++ others).map Suggestion.key).Nodup ↔
      (entries.map Suggestion.key).Nodup ∧ (others.map Suggestion.key).Nodup := by
  rw [List.map_append, List.nodup_append]
  refine ⟨fun ⟨first, second, _⟩ => ⟨first, second⟩, fun ⟨first, second⟩ => ⟨first, second, ?_⟩⟩
  intro _ listed _ alsoListed same
  obtain ⟨entry, among, rfl⟩ := List.mem_map.mp listed
  obtain ⟨other, alsoAmong, rfl⟩ := List.mem_map.mp alsoListed
  exact apart other alsoAmong ((congrArg Prod.fst same).symm.trans (front.ofType entry among))

end ListsInOrder

/-- What a slot offers, cut up by type: fields as the schema has them, operators as the field of the
scope lists them, combinators, and brackets. -/
structure OffersInOrder (schema : Schema) (operatorNames : List String)
    (fields operators combinators brackets : List Suggestion) : Prop where
  fields : ListsInOrder .field (schema.fields.map Field.name) fields
  operators : ListsInOrder .operator operatorNames operators
  combinators : ListsInOrder .combinator (Combinator.all.map Combinator.text) combinators
  brackets : ListsInOrder .group (Bracket.all.map Bracket.text) brackets

namespace OffersInOrder

variable {schema : Schema} {operatorNames : List String}
  {fields operators combinators brackets : List Suggestion}

theorem type_ne_value
    (offers : OffersInOrder schema operatorNames fields operators combinators brackets) :
    ∀ entry ∈ fields ++ (operators ++ (combinators ++ brackets)), entry.type ≠ .value :=
  List.forall_mem_append.mpr ⟨offers.fields.type_ne nofun, List.forall_mem_append.mpr
    ⟨offers.operators.type_ne nofun, List.forall_mem_append.mpr
      ⟨offers.combinators.type_ne nofun, offers.brackets.type_ne nofun⟩⟩⟩

/-- Only an operator can be there twice. -/
theorem nodup_iff
    (offers : OffersInOrder schema operatorNames fields operators combinators brackets)
    (distinct : (schema.fields.map Field.name).Nodup) :
    ((fields ++ (operators ++ (combinators ++ brackets))).map Suggestion.key).Nodup ↔
      (operators.map Suggestion.name).Nodup := by
  have behindOperators : ∀ entry ∈ combinators ++ brackets, entry.type ≠ .operator :=
    List.forall_mem_append.mpr ⟨offers.combinators.type_ne nofun, offers.brackets.type_ne nofun⟩
  have behindFields : ∀ entry ∈ operators ++ (combinators ++ brackets), entry.type ≠ .field :=
    List.forall_mem_append.mpr ⟨offers.operators.type_ne nofun, List.forall_mem_append.mpr
      ⟨offers.combinators.type_ne nofun, offers.brackets.type_ne nofun⟩⟩
  have noField := offers.fields.nodup distinct
  have noCombinator := offers.combinators.nodup (by decide)
  have noBracket := offers.brackets.nodup (by decide)
  rw [offers.fields.nodup_key_append behindFields,
    offers.operators.nodup_key_append behindOperators,
    offers.combinators.nodup_key_append (offers.brackets.type_ne nofun),
    offers.operators.nodup_key_iff]
  simp only [noField, noCombinator, noBracket, true_and, and_true]

end OffersInOrder

namespace Schema

variable {document : Json} {schema : Schema} {field : Field} {operator other : Operator}

theorem map_name_operatorsFor (loaded : ofJson document = .ok schema)
    (listed : field ∈ schema.fields) :
    (schema.operatorsFor field).map Operator.name = field.operators := by
  have each := operatorsFor_of_loaded loaded listed
  have named : List.Forall₂ (fun name operator => name = Operator.name operator) field.operators
      (schema.operatorsFor field) := each.imp fun _ _ both => both.2.1.symm
  rw [← List.forall₂_map_right_iff, List.forall₂_eq_eq_eq] at named
  exact named.symm

/-- However often a field lists a name, it is the same operator. -/
theorem eq_of_mem_operatorsFor (first : operator ∈ schema.operatorsFor field)
    (second : other ∈ schema.operatorsFor field) (same : operator.name = other.name) :
    operator = other := by
  obtain ⟨name, -, found⟩ := List.mem_filterMap.mp first
  obtain ⟨otherName, -, otherFound⟩ := List.mem_filterMap.mp second
  rw [operator?_name found, operator?_name otherFound] at same
  subst same
  exact Option.some.inj (found.symm.trans otherFound)

end Schema

namespace LegalValues

variable {schema : Schema} {candidates : TypeSet} {context : SlotContext}

theorem fields_sublist :
    (LegalValues.of schema candidates context).fields.Sublist schema.fields := by
  simp only [LegalValues.of, legalFields]
  split
  · split
    · exact List.nil_sublist _
    · exact List.Sublist.refl _
  · exact List.nil_sublist _

theorem operators_cases (schema : Schema) (candidates : TypeSet) (context : SlotContext) :
    (LegalValues.of schema candidates context).operators = [] ∨
      ∃ field, context.scopeField.bind schema.field? = some field ∧
        (LegalValues.of schema candidates context).operators = schema.operatorsFor field := by
  simp only [LegalValues.of, legalOperators]
  split
  · split
    next field found => exact .inr ⟨field, found, rfl⟩
    next => exact .inl rfl
  · exact .inl rfl

theorem combinators_sublist :
    (LegalValues.of schema candidates context).combinators.Sublist Combinator.all := by
  simp only [LegalValues.of, legalCombinators]
  split
  · split
    · exact List.nil_sublist _
    · exact List.nil_sublist _
    · cases context.scopeCombinator with
      | none => exact List.Sublist.refl _
      | some combinator => exact List.singleton_sublist.mpr (by cases combinator <;> decide)
  · exact List.nil_sublist _

theorem brackets_sublist :
    (LegalValues.of schema candidates context).brackets.Sublist Bracket.all := by
  simp only [LegalValues.of, legalBrackets]
  split
  · cases mayOpen context <;> cases mayClose context <;> decide
  · exact List.nil_sublist _

end LegalValues

def Field.choice (field : Field) : Token × String :=
  (.field field.name, field.label)

def Operator.choice (operator : Operator) : Token × String :=
  (.operator operator.name, operator.label)

def Combinator.choice (combinator : Combinator) : Token × String :=
  (.combinator combinator, combinator.text)

def Bracket.choice (bracket : Bracket) : Token × String :=
  (.bracket bracket, bracket.text)

namespace Draft

variable {draft : Draft} {index : Nat} {typed : String} {key : MatchKey} {document : Json}
  {type : TokenType} {front back : List (Token × String)} {legal : LegalValues}

def shown (draft : Draft) (index : Nat) (typed : String) (key : MatchKey)
    (choices : List (Token × String)) : List Suggestion :=
  (choices.filter fun choice => key.accepts typed choice.1.text choice.2).map
    (draft.suggestion index)

theorem shown_append : draft.shown index typed key (front ++ back) =
    draft.shown index typed key front ++ draft.shown index typed key back := by
  rw [shown, List.filter_append, List.map_append]
  rfl

theorem map_name_shown {α : Type} (items : List α) (choice : α → Token × String) :
    (draft.shown index typed key (items.map choice)).map Suggestion.name =
      (items.filter fun item => key.accepts typed (choice item).1.text (choice item).2).map
        fun item => (choice item).1.text := by
  rw [shown, List.filter_map, List.map_map, List.map_map]
  rfl

theorem listsInOrder_shown {α : Type} (items : List α) (choice : α → Token × String)
    (types : ∀ item, (choice item).1.type = type) :
    ListsInOrder type (items.map fun item => (choice item).1.text)
      (draft.shown index typed key (items.map choice)) := by
  refine ⟨?_, ?_⟩
  · intro entry listed
    obtain ⟨_, among, rfl⟩ := List.mem_map.mp listed
    obtain ⟨item, -, rfl⟩ := List.mem_map.mp (List.mem_filter.mp among).1
    exact types item
  · rw [map_name_shown]
    exact List.filter_sublist.map _

/-- Entries with one name are shown all or not at all. -/
theorem count_shown {α : Type} (items : List α) (choice : α → Token × String)
    (same : ∀ item ∈ items, ∀ other ∈ items,
      (choice item).1.text = (choice other).1.text → item = other)
    {entry : Suggestion} (listed : entry ∈ draft.shown index typed key (items.map choice)) :
    ((draft.shown index typed key (items.map choice)).map Suggestion.name).count entry.name =
      (items.map fun item => (choice item).1.text).count entry.name := by
  have named : entry.name ∈
      (draft.shown index typed key (items.map choice)).map Suggestion.name :=
    List.mem_map_of_mem listed
  rw [map_name_shown] at named ⊢
  obtain ⟨item, kept, spelled⟩ := List.mem_map.mp named
  obtain ⟨among, accepted⟩ := List.mem_filter.mp kept
  simp only [← spelled, List.count_eq_countP, List.countP_map, List.countP_filter]
  refine List.countP_congr fun other alsoAmong => ?_
  simp only [Function.comp_apply, Bool.and_eq_true, beq_iff_eq, and_iff_left_iff_imp]
  intro alike
  rw [same other alsoAmong item among alike]
  exact accepted

/-- The names of the operators that the field of a slot's scope lists, if there is such a field. -/
def scopeOperators (draft : Draft) (index : Nat) : List String :=
  match (SlotContext.around draft.slots index).scopeField.bind draft.schema.field? with
  | some field => field.operators
  | none => []

theorem eq_of_legalValues (values : draft.legalValues index = .ok legal) :
    ∃ candidates, legal = .of draft.schema candidates (.around draft.slots index) := by
  rw [legalValues] at values
  cases found : draft.candidateTypes index with
  | error error =>
      rw [found] at values
      cases values
  | ok candidates =>
      rw [found] at values
      cases values
      exact ⟨candidates, rfl⟩

theorem suggestMatching_eq_shown (values : draft.legalValues index = .ok legal) :
    draft.suggestMatching index typed key = .ok
      (draft.shown index typed key (legal.fields.map Field.choice) ++
        (draft.shown index typed key (legal.operators.map Operator.choice) ++
          (draft.shown index typed key (legal.combinators.map Combinator.choice) ++
            draft.shown index typed key (legal.brackets.map Bracket.choice)))) := by
  have whole : draft.suggestMatching index typed key =
      .ok (draft.shown index typed key legal.choices) := by
    rw [suggestMatching, values]
    rfl
  simp only [whole, LegalValues.choices, shown_append, List.append_assoc]
  rfl

/-- Unless no operator is legal, the legal ones are those that the field of the scope lists, the same
one for the same name. -/
theorem operators_of_scope (loaded : Schema.ofJson document = .ok draft.schema)
    (values : draft.legalValues index = .ok legal) : legal.operators = [] ∨
      legal.operators.map Operator.name = draft.scopeOperators index ∧
        ∀ operator ∈ legal.operators, ∀ other ∈ legal.operators,
          operator.name = other.name → operator = other := by
  obtain ⟨candidates, rfl⟩ := eq_of_legalValues values
  rcases LegalValues.operators_cases draft.schema candidates (.around draft.slots index) with
    none | ⟨field, found, all⟩
  · exact .inl none
  · obtain ⟨name, -, named⟩ := Option.bind_eq_some_iff.mp found
    have listed : field ∈ draft.schema.fields := List.mem_of_find?_eq_some named
    rw [all, scopeOperators, found]
    exact .inr ⟨Schema.map_name_operatorsFor loaded listed,
      fun _ first _ second => Schema.eq_of_mem_operatorsFor first second⟩

theorem offersInOrder_shown (loaded : Schema.ofJson document = .ok draft.schema)
    (values : draft.legalValues index = .ok legal) (typed : String) (key : MatchKey) :
    OffersInOrder draft.schema (draft.scopeOperators index)
      (draft.shown index typed key (legal.fields.map Field.choice))
      (draft.shown index typed key (legal.operators.map Operator.choice))
      (draft.shown index typed key (legal.combinators.map Combinator.choice))
      (draft.shown index typed key (legal.brackets.map Bracket.choice)) := by
  have operators : (legal.operators.map Operator.name).Sublist (draft.scopeOperators index) := by
    rcases operators_of_scope loaded values with none | ⟨all, -⟩
    · rw [none]
      exact List.nil_sublist _
    · rw [all]
  obtain ⟨candidates, rfl⟩ := eq_of_legalValues values
  exact {
    fields := (listsInOrder_shown _ Field.choice fun _ => rfl).within
      (LegalValues.fields_sublist.map Field.name)
    operators := (listsInOrder_shown _ Operator.choice fun _ => rfl).within operators
    combinators := (listsInOrder_shown _ Combinator.choice fun _ => rfl).within
      (LegalValues.combinators_sublist.map Combinator.text)
    brackets := (listsInOrder_shown _ Bracket.choice fun _ => rfl).within
      (LegalValues.brackets_sublist.map Bracket.text) }

theorem count_shown_operators (loaded : Schema.ofJson document = .ok draft.schema)
    (values : draft.legalValues index = .ok legal) {entry : Suggestion}
    (listed : entry ∈ draft.shown index typed key (legal.operators.map Operator.choice)) :
    ((draft.shown index typed key (legal.operators.map Operator.choice)).map
      Suggestion.name).count entry.name = (draft.scopeOperators index).count entry.name := by
  rcases operators_of_scope loaded values with none | ⟨all, same⟩
  · rw [none] at listed
    cases listed
  · rw [count_shown legal.operators Operator.choice same listed, ← all]
    rfl

/-- The list of a slot comes by type: fields as the schema has them, operators as the field of the
scope lists them, combinators, and brackets, and never a value.  No entry is in it twice unless it
is an operator that the field lists more than once. -/
theorem suggestMatching_inOrder (loaded : Schema.ofJson document = .ok draft.schema)
    (within : index < draft.size) (typed : String) (key : MatchKey) :
    ∃ fields operators combinators brackets,
      draft.suggestMatching index typed key =
        .ok (fields ++ (operators ++ (combinators ++ brackets))) ∧
      OffersInOrder draft.schema (draft.scopeOperators index) fields operators combinators
        brackets ∧
      (∀ entry ∈ fields ++ (operators ++ (combinators ++ brackets)), entry.type ≠ .value) ∧
      (((fields ++ (operators ++ (combinators ++ brackets))).map Suggestion.key).Nodup ↔
        ∀ entry ∈ operators, (draft.scopeOperators index).count entry.name = 1) := by
  obtain ⟨legal, values⟩ := legalValues_of_lt within
  have offers := offersInOrder_shown loaded values typed key
  have distinct := (Schema.consistent_of_loaded loaded).fieldNames
  refine ⟨_, _, _, _, suggestMatching_eq_shown values, offers, offers.type_ne_value, ?_⟩
  rw [offers.nodup_iff distinct, List.nodup_iff_count_eq_one, List.forall_mem_map]
  exact forall₂_congr fun entry listed => by
    rw [count_shown_operators loaded values listed]

end Draft

namespace Schema

def echoDocument : Json :=
  .object [("fields", .array [
    .object [("name", .string "note"), ("label", .string "Note"), ("valueKind", .string "text"),
      ("operators", .array [.string "endsWith", .string "in", .string "endsWith"])]])]

def echoSchema : Schema :=
  ⟨[⟨"note", "Note", .text, ["endsWith", "in", "endsWith"]⟩], builtinOperators⟩

theorem echoDocument_loaded : ofJson echoDocument = .ok echoSchema := by
  have parts : parts? echoDocument.tidy = some (echoSchema.fields, builtinOperators) := by
    decide +kernel
  rw [ofJson_of_parts (by decide +kernel) parts (by decide +kernel)]
  rfl

end Schema

namespace Draft

/-- What is left once the field has been chosen. -/
def echoDraft : Draft :=
  ⟨.echoSchema, [.resolved (.field "note"), .pending (.single .operator) ""]⟩

/-- Only the operator that the field lists once matches, and the list has no entry twice. -/
theorem echoDraft_inOrder : Schema.ofJson Schema.echoDocument = .ok echoDraft.schema ∧
    1 < echoDraft.size ∧ echoDraft.suggest 1 "in" = .ok [⟨"in", "in", .operator, .single .value⟩] ∧
    ∃ fields operators combinators brackets,
      echoDraft.suggest 1 "in" = .ok (fields ++ (operators ++ (combinators ++ brackets))) ∧
      OffersInOrder .echoSchema ["endsWith", "in", "endsWith"] fields operators combinators
        brackets ∧
      ((fields ++ (operators ++ (combinators ++ brackets))).map Suggestion.key).Nodup := by
  have once : echoDraft.suggest 1 "in" = .ok [⟨"in", "in", .operator, .single .value⟩] := by
    decide +kernel
  obtain ⟨fields, operators, combinators, brackets, shown, offers, -, distinct⟩ :=
    @suggestMatching_inOrder echoDraft 1 _ Schema.echoDocument_loaded (by decide) "in" .label
  refine ⟨Schema.echoDocument_loaded, by decide, once, fields, operators, combinators, brackets,
    shown, offers, distinct.mpr fun entry listed => ?_⟩
  have whole := Except.ok.inj (once.symm.trans shown)
  have among : entry ∈ fields ++ (operators ++ (combinators ++ brackets)) :=
    List.mem_append_right _ (List.mem_append_left _ listed)
  rw [← whole, List.mem_singleton] at among
  subst among
  decide +kernel

/-- The field is accepted although it lists an operator twice, and the operator is offered twice. -/
theorem echoDraft_repeats : Schema.ofJson Schema.echoDocument = .ok .echoSchema ∧
    (Draft.new .echoSchema).resolve 0 "note" .field = .ok echoDraft ∧
    echoDraft.suggest 1 "" = .ok
      [⟨"endsWith", "ends with", .operator, .single .value⟩,
        ⟨"in", "in", .operator, .single .value⟩,
        ⟨"endsWith", "ends with", .operator, .single .value⟩] ∧
    ¬ ([⟨"endsWith", "ends with", .operator, .single .value⟩,
        ⟨"in", "in", .operator, .single .value⟩,
        ⟨"endsWith", "ends with", .operator, .single .value⟩].map Suggestion.key).Nodup :=
  ⟨Schema.echoDocument_loaded, by decide +kernel, by decide +kernel, by decide⟩

end Draft
end FilterQuery
