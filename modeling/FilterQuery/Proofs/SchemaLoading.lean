import FilterQuery.Proofs.SchemaParts
import FilterQuery.Proofs.TidyJson

namespace FilterQuery

namespace Schema.Shape

mutual

theorem describes_tidy (shape : Shape) (value : Json) :
    Describes shape value.tidy ↔ Describes shape value := by
  cases shape with
  | object properties required =>
      cases value with
      | object members =>
          simp only [Json.tidy, Describes, describesAll_tidied members properties,
            Json.forall_mem_tidied_iff fun key => ∃ property ∈ properties, property.1 = key,
            Json.member?_tidied, Option.isSome_map]
      | null | bool | number | string | array => simp [Json.tidy, Describes]
  | list item nonempty =>
      cases value with
      | array items => simp [Json.tidy, Describes, describes_tidy item]
      | null | bool | number | string | object => simp [Json.tidy, Describes]
  | label | identifier | oneOf => cases value <;> simp [Json.tidy, Describes]

theorem describesAll_tidied (members : List (String × Json)) (properties : List (String × Shape)) :
    DescribesAll (Json.tidyMembers members []) properties ↔ DescribesAll members properties := by
  cases properties with
  | nil => exact Iff.rfl
  | cons property rest =>
      obtain ⟨key, shape⟩ := property
      simp [DescribesAll, describesAll_tidied members rest, describes_tidy shape]

end

end Schema.Shape

theorem Field.isGivenBy_tidy {field : Field} {item : Json} :
    field.IsGivenBy item.tidy ↔ field.IsGivenBy item := by
  cases item with
  | object members =>
      have listed : ((Json.member? "operators" members).map Json.tidy).getD (.array []) =
          ((Json.member? "operators" members).getD (.array [])).tidy :=
        Option.getD_map Json.tidy (.array []) _
      simp [Json.tidy, IsGivenBy, listed, Json.tidy_eq_texts_iff]
  | null | bool | number | string | array => exact Iff.rfl

theorem Operator.isGivenBy_tidy {operator : Operator} {item : Json} :
    operator.IsGivenBy item.tidy ↔ operator.IsGivenBy item := by
  cases item with
  | object members => simp [Json.tidy, IsGivenBy]
  | null | bool | number | string | array => exact Iff.rfl

namespace Schema

theorem exists_tidied_items_iff {α : Type} {gives : α → Json → Prop} {values : List α}
    {members : List (String × Json)} {key : String}
    (tidy : ∀ {value item}, gives value item.tidy ↔ gives value item) :
    (∃ items, (Json.member? key members).map Json.tidy = some (.array items) ∧
        List.Forall₂ gives values items) ↔
      ∃ items, Json.member? key members = some (.array items) ∧ List.Forall₂ gives values items := by
  simp only [Option.map_eq_some_iff, Json.tidy_eq_array_iff]
  constructor
  · rintro ⟨_, ⟨_, found, items, rfl, rfl⟩, each⟩
    simp only [List.forall₂_map_right_iff, tidy] at each
    exact ⟨items, found, each⟩
  · rintro ⟨items, found, each⟩
    refine ⟨items.map Json.tidy, ⟨_, found, items, rfl, rfl⟩, ?_⟩
    simpa only [List.forall₂_map_right_iff, tidy] using each

theorem isGivenBy_tidy {fields : List Field} {operators : List Operator} {document : Json} :
    IsGivenBy fields operators document.tidy ↔ IsGivenBy fields operators document := by
  cases document with
  | object members =>
      simp only [Json.tidy, IsGivenBy, Json.member?_tidied, Option.map_eq_none_iff,
        exists_tidied_items_iff Field.isGivenBy_tidy,
        exists_tidied_items_iff Operator.isGivenBy_tidy]
  | null | bool | number | string | array => exact Iff.rfl

variable {document : Json} {schema : Schema} {fields : List Field} {operators : List Operator}

/-- Whether fields and operators may make up a schema: no name is there twice, and the operators that
a field lists are in the table and of the family of the field. -/
structure Consistent (fields : List Field) (operators : List Operator) : Prop where
  operatorNames : (operators.map Operator.name).Nodup
  fieldNames : (fields.map Field.name).Nodup
  listed : ∀ field ∈ fields, ∀ name ∈ field.operators,
    ∃ operator ∈ operators, operator.name = name ∧ operator.family = field.valueKind.family

theorem hasOperator_iff {family : OperatorFamily} {name : String}
    (distinct : (operators.map Operator.name).Nodup) : HasOperator operators family name ↔
      ∃ operator ∈ operators, operator.name = name ∧ operator.family = family := by
  constructor
  · rintro ⟨operator, found, same⟩
    have named := List.find?_some found
    exact ⟨operator, List.mem_of_find?_eq_some found, beq_iff_eq.mp named, same⟩
  · rintro ⟨operator, listed, rfl, same⟩
    exact ⟨operator, find?_name_of_mem Operator.name distinct listed, same⟩

theorem consistencyIssues_iff_consistent :
    consistencyIssues fields operators = [] ↔ Consistent fields operators := by
  rw [consistencyIssues_eq_nil_iff]
  constructor
  · rintro ⟨operatorNames, fieldNames, agree⟩
    refine ⟨operatorNames, fieldNames, fun field place name declared => ?_⟩
    exact (hasOperator_iff operatorNames).mp (agree field place name declared)
  · rintro ⟨operatorNames, fieldNames, listed⟩
    refine ⟨operatorNames, fieldNames, fun field place name declared => ?_⟩
    exact (hasOperator_iff operatorNames).mpr (listed field place name declared)

theorem shapeIssues_eq_nil_iff : shapeIssues document = [] ↔ Shape.document.Describes document := by
  rw [shapeIssues, Shape.issues_eq_nil_iff, Shape.describes_tidy]

theorem exists_parts?_of_shaped (shaped : shapeIssues document = []) :
    ∃ parts, parts? document.tidy = some parts := by
  obtain ⟨fields, operators, -, given⟩ :=
    exists_parts_of_describes (shapeIssues_eq_nil_iff.mp shaped)
  exact ⟨(fields, operators), parts?_eq_some_iff.mpr (isGivenBy_tidy.mpr given)⟩

theorem ofJson_eq_ok_iff : ofJson document = .ok schema ↔
    Shape.document.Describes document ∧ ∃ fields operators,
      IsGivenBy fields operators document ∧ Consistent fields operators ∧
        schema = .ofParts fields operators := by
  constructor
  · intro loaded
    obtain ⟨fields, operators, shaped, parts, consistent, same⟩ := ofJson_ok loaded
    exact ⟨(Shape.describes_tidy _ _).mp shaped, fields, operators,
      isGivenBy_tidy.mp (parts?_eq_some_iff.mp parts),
      consistencyIssues_iff_consistent.mp consistent, same⟩
  · rintro ⟨shaped, fields, operators, given, consistent, rfl⟩
    exact ofJson_of_parts (shapeIssues_eq_nil_iff.mpr shaped)
      (parts?_eq_some_iff.mpr (isGivenBy_tidy.mpr given))
      (consistencyIssues_iff_consistent.mpr consistent)

theorem issues_ne_nil {issues : List Issue} (refused : ofJson document = .error issues) :
    issues ≠ [] := by
  unfold ofJson at refused
  split at refused
  next fields operators shaped parts =>
    split at refused
    next => cases refused
    next inconsistent =>
      rw [← Except.error.inj refused]
      exact inconsistent
  next unread =>
    rw [← Except.error.inj refused]
    intro shaped
    obtain ⟨⟨fields, operators⟩, parts⟩ := exists_parts?_of_shaped shaped
    exact unread fields operators shaped parts

/-- Whether a field has become another one in a schema: nothing but its operators may change, and
only if there are none.  Then they are all those of its family in the order of the table. -/
structure Completes (operators : List Operator) (field completed : Field) : Prop where
  name : completed.name = field.name
  label : completed.label = field.label
  valueKind : completed.valueKind = field.valueKind
  kept : field.operators ≠ [] → completed.operators = field.operators
  filled : field.operators = [] → completed.operators =
    (operators.filter fun operator => operator.family == field.valueKind.family).map Operator.name

theorem completes_fill (field : Field) : Completes operators field (field.fill operators) := by
  refine ⟨fill_name, fill_label, fill_valueKind, ?_, ?_⟩
  · intro some
    rw [Field.fill, if_neg (List.isEmpty_iff.not.mpr some)]
  · intro none
    rw [Field.fill, if_pos (List.isEmpty_iff.mpr none)]

/-- Every name that a field lists stands for one operator, and those of all its names are found. -/
theorem operatorsFor_of_loaded (loaded : ofJson document = .ok schema) {field : Field}
    (listed : field ∈ schema.fields) :
    List.Forall₂ (fun name operator => operator ∈ schema.operators ∧ operator.name = name ∧
      operator.family = field.valueKind.family) field.operators (schema.operatorsFor field) := by
  have each : ∀ name ∈ field.operators, HasOperator schema.operators field.valueKind.family name :=
    fun _ declared => hasOperator_of_loaded loaded listed declared
  unfold operatorsFor
  generalize field.operators = names at each
  induction names with
  | nil => exact .nil
  | cons name rest ih =>
      obtain ⟨own, others⟩ := List.forall_mem_cons.mp each
      obtain ⟨operator, found, family⟩ := own
      have known : schema.operator? name = some operator := found
      rw [List.filterMap_cons_some known]
      exact .cons ⟨List.mem_of_find?_eq_some found, operator?_name known, family⟩ (ih others)

/-- A schema is read from a document exactly if the document has the right shape and gives fields and
operators that may make up a schema.  It has the operators and the fields that the document gives,
the latter completed, and otherwise there are issues.  Whatever passes the check of its shape can be
read. -/
theorem accepts_iff_described (document : Json) :
    ((∃ schema, ofJson document = .ok schema) ↔ Shape.document.Describes document ∧
      ∃ fields operators, IsGivenBy fields operators document ∧ Consistent fields operators) ∧
    (shapeIssues document = [] → ∃ parts, parts? document.tidy = some parts) ∧
    (∀ issues, ofJson document = .error issues → issues ≠ []) ∧
    ∀ schema, ofJson document = .ok schema →
      (∃ fields, IsGivenBy fields schema.operators document ∧
        List.Forall₂ (Completes schema.operators) fields schema.fields) ∧
      ∀ field ∈ schema.fields,
        List.Forall₂ (fun name operator => operator ∈ schema.operators ∧ operator.name = name ∧
          operator.family = field.valueKind.family) field.operators (schema.operatorsFor field) := by
  refine ⟨?_, exists_parts?_of_shaped, fun _ => issues_ne_nil, ?_⟩
  · simp only [ofJson_eq_ok_iff]
    constructor
    · rintro ⟨_, shaped, fields, operators, given, consistent, -⟩
      exact ⟨shaped, fields, operators, given, consistent⟩
    · rintro ⟨shaped, fields, operators, given, consistent⟩
      exact ⟨_, shaped, fields, operators, given, consistent, rfl⟩
  · intro schema loaded
    refine ⟨?_, fun _ => operatorsFor_of_loaded loaded⟩
    obtain ⟨-, fields, operators, given, -, rfl⟩ := ofJson_eq_ok_iff.mp loaded
    refine ⟨fields, given, ?_⟩
    exact List.forall₂_map_right_iff.mpr (List.forall₂_same.mpr fun field _ => completes_fill field)

end Schema
end FilterQuery
