import FilterQuery.Proofs.SchemaShape
import Mathlib.Data.List.Forall2

namespace FilterQuery

theorem exists_forall₂ {α β : Type} {holds : α → β → Prop} {items : List β}
    (each : ∀ item ∈ items, ∃ value, holds value item) :
    ∃ values, List.Forall₂ holds values items := by
  induction items with
  | nil => exact ⟨[], .nil⟩
  | cons item rest ih =>
      obtain ⟨own, others⟩ := List.forall_mem_cons.mp each
      obtain ⟨value, held⟩ := own
      obtain ⟨values, later⟩ := ih others
      exact ⟨value :: values, .cons held later⟩

theorem OperatorFamily.ofName?_eq_some_iff {name : String} {family : OperatorFamily} :
    ofName? name = some family ↔ name = family.name := by
  constructor
  · intro found
    have same := List.find?_some found
    exact (beq_iff_eq.mp same).symm
  · rintro rfl
    cases family <;> decide

theorem OperatorFamily.mem_names_iff {name : String} :
    name ∈ ["text", "comparison"] ↔ ∃ family : OperatorFamily, family.name = name := by
  constructor
  · intro known
    simp only [List.mem_cons, List.not_mem_nil, or_false] at known
    rcases known with rfl | rfl
    · exact ⟨.text, rfl⟩
    · exact ⟨.comparison, rfl⟩
  · rintro ⟨family, rfl⟩
    cases family <;> decide

theorem ValueKind.ofName?_eq_some_iff {name : String} {kind : ValueKind} :
    ofName? name = some kind ↔ name = kind.name := by
  constructor
  · intro found
    have same := List.find?_some found
    exact (beq_iff_eq.mp same).symm
  · rintro rfl
    cases kind <;> decide

theorem ValueKind.mem_names_iff {name : String} :
    name ∈ ["text", "date"] ↔ ∃ kind : ValueKind, kind.name = name := by
  constructor
  · intro known
    simp only [List.mem_cons, List.not_mem_nil, or_false] at known
    rcases known with rfl | rfl
    · exact ⟨.text, rfl⟩
    · exact ⟨.date, rfl⟩
  · rintro ⟨kind, rfl⟩
    cases kind <;> decide

/-- Whether an item of a document gives a field.  It lists no operators if it has no such member. -/
def Field.IsGivenBy (field : Field) : Json → Prop
  | .object members =>
      Json.member? "name" members = some (.string field.name) ∧
        Json.member? "label" members = some (.string field.label) ∧
        Json.member? "valueKind" members = some (.string field.valueKind.name) ∧
        (Json.member? "operators" members).getD (.array []) =
          .array (field.operators.map .string)
  | _ => False

def Operator.IsGivenBy (operator : Operator) : Json → Prop
  | .object members =>
      Json.member? "name" members = some (.string operator.name) ∧
        Json.member? "label" members = some (.string operator.label) ∧
        Json.member? "family" members = some (.string operator.family.name)
  | _ => False

/-- Whether a document gives fields and operators, one for each item in the order of the items.
Where it has no table the built-in operators are given. -/
def Schema.IsGivenBy (fields : List Field) (operators : List Operator) : Json → Prop
  | .object members =>
      (∃ items, Json.member? "fields" members = some (.array items) ∧
        List.Forall₂ Field.IsGivenBy fields items) ∧
      (Json.member? "operators" members = none ∧ operators = builtinOperators ∨
        ∃ items, Json.member? "operators" members = some (.array items) ∧
          List.Forall₂ Operator.IsGivenBy operators items)
  | _ => False

section Reading

variable {items : List Json} {members : List (String × Json)} {document item : Json}
  {field : Field} {operator : Operator} {fields : List Field} {operators : List Operator}

theorem Json.texts?_eq_some_iff {texts : List String} :
    texts? items = some texts ↔ items = texts.map .string := by
  induction items generalizing texts with
  | nil => cases texts <;> simp [texts?]
  | cons item rest ih =>
      cases item with
      | string text => cases texts <;> simp [texts?, ih, and_comm]
      | null | bool | number | array | object => cases texts <;> simp [texts?]

theorem Json.itemsAs?_eq_some_iff {α : Type} {read? : Json → Option α} {gives : α → Json → Prop}
    {values : List α} (reads : ∀ {item value}, read? item = some value ↔ gives value item) :
    itemsAs? read? items = some values ↔ List.Forall₂ gives values items := by
  induction items generalizing values with
  | nil => cases values <;> simp [itemsAs?]
  | cons item rest ih =>
      cases values with
      | nil =>
          unfold itemsAs?
          split <;> simp
      | cons value values =>
          rw [itemsAs?, List.forall₂_cons, ← reads, ← ih]
          cases read? item <;> cases itemsAs? read? rest <;> simp

theorem Field.operatorsOf?_eq_some_iff {texts : List String} : operatorsOf? members = some texts ↔
    (Json.member? "operators" members).getD (.array []) = .array (texts.map .string) := by
  unfold operatorsOf?
  cases Json.member? "operators" members with
  | none => cases texts <;> simp
  | some value =>
      cases value with
      | array items => simp [Json.texts?_eq_some_iff]
      | null | bool | number | string | object => simp

theorem Field.ofJson?_eq_some_iff : ofJson? item = some field ↔ field.IsGivenBy item := by
  constructor
  · intro read
    unfold ofJson? at read
    split at read
    next members =>
      split at read
      next name label kind operators nameFound labelFound kindFound operatorsRead =>
        obtain ⟨kind, named, rfl⟩ := Option.map_eq_some_iff.mp read
        rw [ValueKind.ofName?_eq_some_iff.mp named] at kindFound
        exact ⟨nameFound, labelFound, kindFound, operatorsOf?_eq_some_iff.mp operatorsRead⟩
      next => cases read
    next => cases read
  · intro given
    cases item with
    | object members =>
        obtain ⟨nameFound, labelFound, kindFound, listed⟩ := given
        have operatorsRead := operatorsOf?_eq_some_iff.mpr listed
        have named : ValueKind.ofName? field.valueKind.name = some field.valueKind :=
          ValueKind.ofName?_eq_some_iff.mpr rfl
        simp only [ofJson?, nameFound, labelFound, kindFound, operatorsRead, named, Option.map_some]
    | null | bool | number | string | array => cases given

theorem Operator.ofJson?_eq_some_iff : ofJson? item = some operator ↔ operator.IsGivenBy item := by
  constructor
  · intro read
    unfold ofJson? at read
    split at read
    next members =>
      split at read
      next name label family nameFound labelFound familyFound =>
        obtain ⟨family, named, rfl⟩ := Option.map_eq_some_iff.mp read
        rw [OperatorFamily.ofName?_eq_some_iff.mp named] at familyFound
        exact ⟨nameFound, labelFound, familyFound⟩
      next => cases read
    next => cases read
  · intro given
    cases item with
    | object members =>
        obtain ⟨nameFound, labelFound, familyFound⟩ := given
        have named : OperatorFamily.ofName? operator.family.name = some operator.family :=
          OperatorFamily.ofName?_eq_some_iff.mpr rfl
        simp only [ofJson?, nameFound, labelFound, familyFound, named, Option.map_some]
    | null | bool | number | string | array => cases given

namespace Schema

theorem operatorsOf?_eq_some_iff : operatorsOf? members = some operators ↔
    Json.member? "operators" members = none ∧ operators = builtinOperators ∨
      ∃ items, Json.member? "operators" members = some (.array items) ∧
        List.Forall₂ Operator.IsGivenBy operators items := by
  unfold operatorsOf?
  cases Json.member? "operators" members with
  | none => simp [eq_comm]
  | some value =>
      cases value with
      | array items => simp [Json.itemsAs?_eq_some_iff Operator.ofJson?_eq_some_iff]
      | null | bool | number | string | object => simp

/-- What is read from a document is what it gives. -/
theorem parts?_eq_some_iff :
    parts? document = some (fields, operators) ↔ IsGivenBy fields operators document := by
  constructor
  · intro read
    unfold parts? at read
    split at read
    next members =>
      split at read
      next items table fieldsFound tableRead =>
        obtain ⟨own, fieldsRead, same⟩ := Option.map_eq_some_iff.mp read
        cases same
        exact ⟨⟨items, fieldsFound,
          (Json.itemsAs?_eq_some_iff Field.ofJson?_eq_some_iff).mp fieldsRead⟩,
          operatorsOf?_eq_some_iff.mp tableRead⟩
      next => cases read
    next => cases read
  · intro given
    cases document with
    | object members =>
        obtain ⟨⟨items, fieldsFound, each⟩, table⟩ := given
        have fieldsRead := (Json.itemsAs?_eq_some_iff Field.ofJson?_eq_some_iff).mpr each
        simp only [parts?, fieldsFound, operatorsOf?_eq_some_iff.mpr table, fieldsRead,
          Option.map_some]
    | null | bool | number | string | array => cases given

end Schema
end Reading

/-- A field that documents may give. -/
structure Field.IsShaped (field : Field) : Prop where
  name : Schema.isIdentifier field.name = true
  label : field.label ≠ ""
  operators : ∀ name ∈ field.operators, name ≠ ""

structure Operator.IsShaped (operator : Operator) : Prop where
  name : operator.name ≠ ""
  label : operator.label ≠ ""

namespace Schema

structure PartsShaped (fields : List Field) (operators : List Operator) : Prop where
  someField : fields ≠ []
  someOperator : operators ≠ []
  fields : ∀ field ∈ fields, field.IsShaped
  operators : ∀ operator ∈ operators, operator.IsShaped

namespace Shape

variable {value : Json} {members : List (String × Json)} {properties : List (String × Shape)}
  {required : List String} {nonempty : Bool}

theorem describes_label_iff : Describes .label value ↔ ∃ text, value = .string text ∧ text ≠ "" := by
  cases value <;> simp [Describes]

theorem describes_identifier_iff :
    Describes .identifier value ↔ ∃ text, value = .string text ∧ isIdentifier text = true := by
  cases value <;> simp [Describes]

theorem describes_oneOf_iff {options : List String} :
    Describes (.oneOf options) value ↔ ∃ text ∈ options, value = .string text := by
  cases value <;> simp [Describes]

theorem describes_list_iff {item : Shape} :
    Describes (.list item nonempty) value ↔ ∃ items, value = .array items ∧
      (∀ value ∈ items, Describes item value) ∧ (nonempty = true → items ≠ []) := by
  cases value <;> simp [Describes]

theorem exists_of_describes_object (shaped : Describes (.object properties required) value) :
    ∃ members, value = .object members ∧ DescribesAll members properties ∧
      ∀ key ∈ required, (Json.member? key members).isSome := by
  cases value with
  | object members => exact ⟨members, rfl, shaped.1, shaped.2.2⟩
  | null | bool | number | string | array => cases shaped

/-- A list gives as many entries as it has items if each of its items gives one. -/
theorem exists_entries_of_describes {α : Type} {item : Shape} {sound : α → Prop}
    {gives : α → Json → Prop} (shaped : Describes (.list item nonempty) value)
    (each : ∀ value, Describes item value → ∃ entry, sound entry ∧ gives entry value) :
    ∃ entries items, value = .array items ∧ List.Forall₂ gives entries items ∧
      (∀ entry ∈ entries, sound entry) ∧ (nonempty = true → entries ≠ []) := by
  obtain ⟨items, rfl, described, some⟩ := describes_list_iff.mp shaped
  obtain ⟨entries, both⟩ := exists_forall₂ fun value listed => each value (described value listed)
  obtain ⟨all, given⟩ := (List.forall₂_and_left _ _).mp both
  refine ⟨entries, items, rfl, given, all, ?_⟩
  rintro demanded rfl
  exact some demanded (List.forall₂_nil_left_iff.mp given)

theorem exists_texts_of_describes (shaped : Describes (.list .label nonempty) value) :
    ∃ texts : List String, value = .array (texts.map .string) ∧ ∀ text ∈ texts, text ≠ "" := by
  obtain ⟨texts, items, rfl, given, all, -⟩ := exists_entries_of_describes shaped
    fun value label => by
      obtain ⟨text, rfl, some⟩ := describes_label_iff.mp label
      exact ⟨text, some, Eq.refl (Json.string text)⟩
  rw [← List.forall₂_map_left_iff, List.forall₂_eq_eq_eq] at given
  exact ⟨texts, congrArg Json.array given.symm, all⟩

theorem exists_field_of_describes (shaped : Shape.field.Describes value) :
    ∃ field : Field, field.IsShaped ∧ field.IsGivenBy value := by
  obtain ⟨members, rfl, ⟨labels, names, listed, kinds, -⟩, present⟩ :=
    exists_of_describes_object shaped
  obtain ⟨_, nameFound⟩ := Option.isSome_iff_exists.mp (present "name" (by simp))
  obtain ⟨_, labelFound⟩ := Option.isSome_iff_exists.mp (present "label" (by simp))
  obtain ⟨_, kindFound⟩ := Option.isSome_iff_exists.mp (present "valueKind" (by simp))
  obtain ⟨name, rfl, identifier⟩ := describes_identifier_iff.mp (names _ nameFound)
  obtain ⟨label, rfl, someLabel⟩ := describes_label_iff.mp (labels _ labelFound)
  obtain ⟨text, known, rfl⟩ := describes_oneOf_iff.mp (kinds _ kindFound)
  obtain ⟨kind, rfl⟩ := ValueKind.mem_names_iff.mp known
  obtain ⟨operators, own, someNames⟩ : ∃ operators : List String,
      (Json.member? "operators" members).getD (.array []) = .array (operators.map .string) ∧
        ∀ name ∈ operators, name ≠ "" := by
    cases found : Json.member? "operators" members with
    | none => exact ⟨[], rfl, nofun⟩
    | some value => exact exists_texts_of_describes (listed value found)
  exact ⟨⟨name, label, kind, operators⟩, ⟨identifier, someLabel, someNames⟩, nameFound, labelFound,
    kindFound, own⟩

theorem exists_operator_of_describes (shaped : Shape.operator.Describes value) :
    ∃ operator : Operator, operator.IsShaped ∧ operator.IsGivenBy value := by
  obtain ⟨members, rfl, ⟨families, labels, names, -⟩, present⟩ :=
    exists_of_describes_object shaped
  obtain ⟨_, nameFound⟩ := Option.isSome_iff_exists.mp (present "name" (by simp))
  obtain ⟨_, labelFound⟩ := Option.isSome_iff_exists.mp (present "label" (by simp))
  obtain ⟨_, familyFound⟩ := Option.isSome_iff_exists.mp (present "family" (by simp))
  obtain ⟨name, rfl, someName⟩ := describes_label_iff.mp (names _ nameFound)
  obtain ⟨label, rfl, someLabel⟩ := describes_label_iff.mp (labels _ labelFound)
  obtain ⟨text, known, rfl⟩ := describes_oneOf_iff.mp (families _ familyFound)
  obtain ⟨family, rfl⟩ := OperatorFamily.mem_names_iff.mp known
  exact ⟨⟨name, label, family⟩, ⟨someName, someLabel⟩, nameFound, labelFound, familyFound⟩

end Shape

theorem builtinOperators_shaped : ∀ operator ∈ builtinOperators, operator.IsShaped := by
  have named : ∀ operator ∈ builtinOperators, operator.name ≠ "" ∧ operator.label ≠ "" := by decide
  exact fun operator listed => ⟨(named operator listed).1, (named operator listed).2⟩

theorem exists_parts_of_describes {document : Json} (shaped : Shape.document.Describes document) :
    ∃ fields operators, PartsShaped fields operators ∧ IsGivenBy fields operators document := by
  obtain ⟨members, rfl, ⟨fieldsShaped, tableShaped, -⟩, present⟩ :=
    Shape.exists_of_describes_object shaped
  obtain ⟨_, fieldsFound⟩ := Option.isSome_iff_exists.mp (present "fields" (by simp))
  obtain ⟨fields, items, rfl, each, fieldsSound, someField⟩ :=
    Shape.exists_entries_of_describes (fieldsShaped _ fieldsFound)
      fun _ => Shape.exists_field_of_describes
  cases found : Json.member? "operators" members with
  | none =>
      exact ⟨fields, builtinOperators,
        ⟨someField rfl, by decide, fieldsSound, builtinOperators_shaped⟩,
        ⟨items, fieldsFound, each⟩, .inl ⟨found, rfl⟩⟩
  | some table =>
      obtain ⟨operators, entries, rfl, eachOperator, operatorsSound, someOperator⟩ :=
        Shape.exists_entries_of_describes (tableShaped _ found)
          fun _ => Shape.exists_operator_of_describes
      exact ⟨fields, operators, ⟨someField rfl, someOperator rfl, fieldsSound, operatorsSound⟩,
        ⟨items, fieldsFound, each⟩, .inr ⟨entries, found, eachOperator⟩⟩

variable {document : Json} {schema : Schema} {field : Field}

/-- What a document has to be like for a schema to be read from it. -/
theorem ofJson_ok (loaded : ofJson document = .ok schema) :
    ∃ fields operators, Shape.document.Describes document.tidy ∧
      parts? document.tidy = some (fields, operators) ∧
      consistencyIssues fields operators = [] ∧ schema = .ofParts fields operators := by
  unfold ofJson at loaded
  split at loaded
  next fields operators shaped parts =>
    split at loaded
    next consistent =>
      cases loaded
      exact ⟨fields, operators, (Shape.issues_eq_nil_iff _ _ _).mp shaped, parts, consistent, rfl⟩
    next => cases loaded
  next => cases loaded

theorem ofJson_of_parts {fields : List Field} {operators : List Operator}
    (shaped : shapeIssues document = [])
    (parts : parts? document.tidy = some (fields, operators))
    (consistent : consistencyIssues fields operators = []) :
    ofJson document = .ok (.ofParts fields operators) := by
  simp only [ofJson, shaped, parts, consistent]

section Fill

variable {operators : List Operator}

@[simp] theorem fill_name : (field.fill operators).name = field.name := by
  unfold Field.fill
  split <;> rfl

@[simp] theorem fill_label : (field.fill operators).label = field.label := by
  unfold Field.fill
  split <;> rfl

@[simp] theorem fill_valueKind : (field.fill operators).valueKind = field.valueKind := by
  unfold Field.fill
  split <;> rfl

theorem map_fill_name {fields : List Field} :
    (fields.map (Field.fill operators)).map Field.name = fields.map Field.name := by
  rw [List.map_map]
  exact List.map_congr_left fun _ _ => fill_name

end Fill

/-- A field of a schema that was read from a document is the one that is found by its name. -/
theorem field?_of_loaded (loaded : ofJson document = .ok schema)
    (listed : field ∈ schema.fields) : schema.field? field.name = some field := by
  obtain ⟨fields, operators, -, -, consistent, rfl⟩ := ofJson_ok loaded
  have names : (ofParts fields operators).fields.map Field.name = fields.map Field.name :=
    map_fill_name
  have distinct : (fields.map Field.name).Nodup := (consistencyIssues_eq_nil_iff.mp consistent).2.1
  exact find?_name_of_mem Field.name (names ▸ distinct) listed

/-- The operators of a field, listed by the document or filled in, are in the table and of the
family of the field. -/
theorem hasOperator_of_loaded (loaded : ofJson document = .ok schema)
    (listed : field ∈ schema.fields) {name : String} (declared : name ∈ field.operators) :
    HasOperator schema.operators field.valueKind.family name := by
  obtain ⟨fields, operators, -, -, consistent, rfl⟩ := ofJson_ok loaded
  obtain ⟨distinct, -, agree⟩ := consistencyIssues_eq_nil_iff.mp consistent
  obtain ⟨unfilled, place, rfl⟩ := List.mem_map.mp listed
  unfold Field.fill at declared ⊢
  split at declared
  next none =>
    obtain ⟨operator, kept, rfl⟩ := List.mem_map.mp declared
    obtain ⟨inTable, family⟩ := List.mem_filter.mp kept
    rw [if_pos none]
    exact ⟨operator, find?_name_of_mem Operator.name distinct inTable, beq_iff_eq.mp family⟩
  next some =>
    rw [if_neg some]
    exact agree unfilled place name declared

/-- The parts of a schema that was read from a document are such as documents may give. -/
theorem partsShaped_of_loaded (loaded : ofJson document = .ok schema) :
    PartsShaped schema.fields schema.operators := by
  obtain ⟨fields, operators, shaped, parts, -, same⟩ := ofJson_ok loaded
  obtain ⟨given, table, sound, gives⟩ := exists_parts_of_describes shaped
  cases parts.symm.trans (parts?_eq_some_iff.mpr gives)
  subst same
  refine ⟨?_, sound.someOperator, ?_, sound.operators⟩
  · exact List.map_eq_nil_iff.not.mpr sound.someField
  · intro field listed
    have named : ∀ name ∈ field.operators, name ≠ "" := by
      intro name declared
      obtain ⟨operator, found, -⟩ := hasOperator_of_loaded loaded listed declared
      rw [← operator?_name found]
      exact (sound.operators operator (List.mem_of_find?_eq_some found)).name
    obtain ⟨unfilled, place, rfl⟩ := List.mem_map.mp listed
    have own := sound.fields unfilled place
    refine ⟨?_, ?_, named⟩
    · rw [fill_name]
      exact own.name
    · rw [fill_label]
      exact own.label

/-- The fields of a schema that was read from a document have lower-case names. -/
theorem isIdentifier_of_loaded (loaded : ofJson document = .ok schema)
    (listed : field ∈ schema.fields) : isIdentifier field.name = true :=
  ((partsShaped_of_loaded loaded).fields field listed).name

/-- The operators of a schema that was read from a document, and the built-in ones, have names. -/
theorem operator_name_ne_of_loaded (loaded : ofJson document = .ok schema) {operator : Operator}
    (listed : operator ∈ schema.operators) : operator.name ≠ "" :=
  ((partsShaped_of_loaded loaded).operators operator listed).name

/-- Whether a schema has an operator of the family of a field. -/
def HasOperatorFor (schema : Schema) (field : Field) : Prop :=
  ∃ operator ∈ schema.operators, operator.family = field.valueKind.family

instance : Decidable (schema.HasOperatorFor field) :=
  inferInstanceAs (Decidable (∃ operator ∈ schema.operators,
    operator.family = field.valueKind.family))

/-- A field has an operator if there is any that it could have. -/
theorem hasOperatorFor_iff (loaded : ofJson document = .ok schema)
    (listed : field ∈ schema.fields) : schema.HasOperatorFor field ↔ field.operators ≠ [] := by
  constructor
  · rintro ⟨operator, inTable, family⟩
    obtain ⟨fields, operators, -, -, -, rfl⟩ := ofJson_ok loaded
    obtain ⟨unfilled, -, rfl⟩ := List.mem_map.mp listed
    unfold Field.fill at family ⊢
    split at family
    next none =>
      have kept : operator ∈ operators.filter fun operator =>
          operator.family == unfilled.valueKind.family :=
        List.mem_filter.mpr ⟨inTable, beq_iff_eq.mpr family⟩
      rw [if_pos none]
      exact List.ne_nil_of_mem (List.mem_map_of_mem kept)
    next some =>
      rw [if_neg some]
      exact fun none => some (List.isEmpty_iff.mpr none)
  · intro some
    obtain ⟨name, declared⟩ := List.exists_mem_of_ne_nil _ some
    obtain ⟨operator, found, family⟩ := hasOperator_of_loaded loaded listed declared
    exact ⟨operator, List.mem_of_find?_eq_some found, family⟩

end Schema
end FilterQuery
