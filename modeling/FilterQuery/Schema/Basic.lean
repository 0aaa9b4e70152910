namespace FilterQuery

inductive OperatorFamily where
  | text
  | comparison
deriving DecidableEq, Repr, Inhabited

def OperatorFamily.name : OperatorFamily → String
  | .text => "text"
  | .comparison => "comparison"

def OperatorFamily.ofName? (name : String) : Option OperatorFamily :=
  [OperatorFamily.text, .comparison].find? fun family => family.name == name

inductive ValueKind where
  | text
  | date
deriving DecidableEq, Repr, Inhabited

namespace ValueKind

def name : ValueKind → String
  | .text => "text"
  | .date => "date"

def ofName? (name : String) : Option ValueKind :=
  [ValueKind.text, .date].find? fun kind => kind.name == name

def family : ValueKind → OperatorFamily
  | .text => .text
  | .date => .comparison

end ValueKind

/-- A field that rules can ask about, with the names of its operators in the order in which they
are offered. -/
structure Field where
  name : String
  label : String
  valueKind : ValueKind
  operators : List String
deriving DecidableEq, Repr, Inhabited

structure Operator where
  name : String
  label : String
  family : OperatorFamily
deriving DecidableEq, Repr, Inhabited

/-- Everything a query can be built from. -/
structure Schema where
  fields : List Field
  operators : List Operator
deriving DecidableEq, Repr, Inhabited

namespace Schema

def field? (schema : Schema) (name : String) : Option Field :=
  schema.fields.find? fun field => field.name == name

def operator? (schema : Schema) (name : String) : Option Operator :=
  schema.operators.find? fun operator => operator.name == name

theorem field?_name {schema : Schema} {name : String} {field : Field}
    (found : schema.field? name = some field) : field.name = name := by
  unfold field? at found
  have same := List.find?_some found
  exact beq_iff_eq.mp same

theorem operator?_name {schema : Schema} {name : String} {operator : Operator}
    (found : schema.operator? name = some operator) : operator.name = name := by
  unfold operator? at found
  have same := List.find?_some found
  exact beq_iff_eq.mp same

def operatorsFor (schema : Schema) (field : Field) : List Operator :=
  field.operators.filterMap schema.operator?

end Schema

/-- The field with the operators of its family where it lists none. -/
def Field.fill (operators : List Operator) (field : Field) : Field :=
  if field.operators.isEmpty then
    { field with
      operators :=
        (operators.filter fun operator => operator.family == field.valueKind.family).map
          Operator.name }
  else field

namespace Schema

def builtinOperators : List Operator :=
  [⟨"contains", "contains", .text⟩,
   ⟨"doesNotContain", "does not contain", .text⟩,
   ⟨"beginsWith", "begins with", .text⟩,
   ⟨"doesNotBeginWith", "does not begin with", .text⟩,
   ⟨"endsWith", "ends with", .text⟩,
   ⟨"doesNotEndWith", "does not end with", .text⟩,
   ⟨"in", "in", .text⟩,
   ⟨"notIn", "not in", .text⟩,
   ⟨"=", "=", .comparison⟩,
   ⟨"!=", "!=", .comparison⟩,
   ⟨"<", "<", .comparison⟩,
   ⟨">", ">", .comparison⟩,
   ⟨"<=", "<=", .comparison⟩,
   ⟨">=", ">=", .comparison⟩]

def builtinFields : List Field :=
  [⟨"text", "Text", .text, []⟩,
   ⟨"created_date", "Created Date", .date, []⟩,
   ⟨"updated_date", "Updated Date", .date, []⟩,
   ⟨"kn_created", "Added to Kn", .date, []⟩,
   ⟨"classifier", "Classifier", .text, []⟩,
   ⟨"created_by", "Created By", .text, []⟩]

/-- The schema of some fields and operators.  Every field gets its full list of operators. -/
def ofParts (fields : List Field) (operators : List Operator) : Schema :=
  ⟨fields.map (Field.fill operators), operators⟩

def builtin : Schema :=
  .ofParts builtinFields builtinOperators

end Schema
end FilterQuery
