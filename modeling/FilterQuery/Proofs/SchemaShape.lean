import FilterQuery.Schema.Loading
import FilterQuery.Text.LowerCase

namespace FilterQuery.Schema

/-- Nothing is found in a list if nothing is found in any item, wherever it stands. -/
theorem flatMap_zipIdx_eq_nil_iff {α β : Type} {items : List α} {find : α × Nat → List β}
    {clear : α → Prop} (own : ∀ item index, find (item, index) = [] ↔ clear item) :
    items.zipIdx.flatMap find = [] ↔ ∀ item ∈ items, clear item := by
  rw [List.flatMap_eq_nil_iff]
  constructor
  · intro none item listed
    obtain ⟨index, within, rfl⟩ := List.mem_iff_getElem.mp listed
    refine (own _ index).mp (none (items[index], index) ?_)
    rw [List.mem_zipIdx_iff_getElem?, List.getElem?_eq_getElem within]
  · intro all item listed
    exact (own item.1 item.2).mpr (all item.1 (List.fst_mem_of_mem_zipIdx listed))

namespace Shape

mutual

/-- The JSON values that have a shape. -/
def Describes : Shape → Json → Prop
  | .object properties required, .object members =>
      DescribesAll members properties ∧
        (∀ member ∈ members, ∃ property ∈ properties, property.1 = member.1) ∧
        ∀ key ∈ required, (Json.member? key members).isSome
  | .list item nonempty, .array items =>
      (∀ value ∈ items, Describes item value) ∧ (nonempty = true → items ≠ [])
  | .label, .string text => text ≠ ""
  | .identifier, .string text => isIdentifier text = true
  | .oneOf options, .string text => text ∈ options
  | _, _ => False

def DescribesAll (members : List (String × Json)) : List (String × Shape) → Prop
  | [] => True
  | (key, shape) :: rest =>
      (∀ value, Json.member? key members = some value → Describes shape value) ∧
        DescribesAll members rest

end

variable {path : List String} {members : List (String × Json)}
  {properties : List (String × Shape)}

theorem unexpectedIssues_eq_nil_iff :
    unexpectedIssues path (unexpectedKeys properties members) = [] ↔
      ∀ member ∈ members, ∃ property ∈ properties, property.1 = member.1 := by
  have none : ∀ keys, unexpectedIssues path keys = [] ↔ keys = [] := by
    intro keys
    cases keys <;> simp [unexpectedIssues]
  rw [none]
  simp [unexpectedKeys, List.filter_eq_nil_iff]

theorem missingIssues_eq_nil_iff {required : List String} :
    missingIssues path required members = [] ↔
      ∀ key ∈ required, (Json.member? key members).isSome := by
  simp [missingIssues, List.filter_eq_nil_iff, Option.isSome_iff_ne_none]

mutual

/-- A value has no issues exactly if it has the shape. -/
theorem issues_eq_nil_iff (path : List String) (shape : Shape) (value : Json) :
    issues path shape value = [] ↔ Describes shape value := by
  cases shape with
  | object properties required =>
      cases value with
      | object members =>
          simp only [issues, Describes, List.append_eq_nil_iff, unexpectedIssues_eq_nil_iff,
            missingIssues_eq_nil_iff, propertyIssues_eq_nil_iff path members properties, and_assoc]
      | null | bool | number | string | array => simp [issues, Describes]
  | list item nonempty =>
      cases value with
      | array items =>
          have each := @flatMap_zipIdx_eq_nil_iff _ _ items
            (fun (value, index) => issues (path ++ [toString index]) item value) (Describes item)
            fun value index => issues_eq_nil_iff (path ++ [toString index]) item value
          simp only [issues, Describes, List.append_eq_nil_iff, each]
          simp
      | null | bool | number | string | object => simp [issues, Describes]
  | label =>
      cases value with
      | string text => simp [issues, Describes]
      | null | bool | number | array | object => simp [issues, Describes]
  | identifier =>
      cases value with
      | string text => simp [issues, Describes]
      | null | bool | number | array | object => simp [issues, Describes]
  | oneOf options =>
      cases value with
      | string text => simp [issues, Describes]
      | null | bool | number | array | object => simp [issues, Describes]

theorem propertyIssues_eq_nil_iff (path : List String) (members : List (String × Json))
    (properties : List (String × Shape)) :
    propertyIssues path members properties = [] ↔ DescribesAll members properties := by
  cases properties with
  | nil => simp [propertyIssues, DescribesAll]
  | cons property rest =>
      obtain ⟨key, shape⟩ := property
      have own := issues_eq_nil_iff (path ++ [key]) shape
      have others := propertyIssues_eq_nil_iff path members rest
      simp only [propertyIssues, DescribesAll, List.append_eq_nil_iff, others]
      cases Json.member? key members <;> simp [own]

end

end Shape

/-- No name of a list is found to be there twice, or among names seen before, exactly if none is. -/
theorem duplicateIssues_eq_nil_iff {collection : String} {cause : String → IssueCause}
    {seen names : List String} {index : Nat} :
    duplicateIssues collection cause seen index names = [] ↔
      names.Nodup ∧ ∀ name ∈ names, name ∉ seen := by
  induction names generalizing seen index with
  | nil => simp [duplicateIssues]
  | cons name rest ih =>
      rw [duplicateIssues]
      split
      next again =>
        simp only [List.contains_iff_mem] at again
        simp [again]
      next fresh =>
        simp only [List.contains_iff_mem] at fresh
        -- What is seen grows by the name, which keeps it apart from the names behind it.
        have apart : (∀ other ∈ rest, other ∉ name :: seen) ↔
            name ∉ rest ∧ ∀ other ∈ rest, other ∉ seen := by
          simp only [List.mem_cons, not_or, forall_and]
          exact and_congr_left' ⟨fun others later => others name later rfl,
            fun none other later same => none (same ▸ later)⟩
        rw [ih, apart, List.nodup_cons, List.forall_mem_cons]
        constructor
        · rintro ⟨distinct, alone, others⟩
          exact ⟨⟨alone, distinct⟩, fresh, others⟩
        · rintro ⟨⟨alone, distinct⟩, -, others⟩
          exact ⟨distinct, alone, others⟩

theorem find?_name_of_mem {α : Type} {items : List α} {item : α} (name : α → String)
    (distinct : (items.map name).Nodup) (listed : item ∈ items) :
    items.find? (fun other => name other == name item) = some item := by
  induction items with
  | nil => cases listed
  | cons first rest ih =>
      obtain ⟨alone, distinct⟩ := List.nodup_cons.mp distinct
      rcases List.mem_cons.mp listed with rfl | later
      · exact List.find?_cons_of_pos (beq_self_eq_true _)
      · have other : (name first == name item) = false := by
          rw [beq_eq_false_iff_ne]
          intro same
          exact alone (same ▸ List.mem_map_of_mem later)
        rw [List.find?_cons, other]
        exact ih distinct later

/-- Whether the operator that a table has under a name is of a family. -/
def HasOperator (operators : List Operator) (family : OperatorFamily) (name : String) : Prop :=
  ∃ operator, operators.find? (fun operator => operator.name == name) = some operator ∧
    operator.family = family

theorem operatorIssues_eq_nil_iff {operators : List Operator} {field : Field} {path : List String}
    {name : String} : operatorIssues operators field path name = [] ↔
      HasOperator operators field.valueKind.family name := by
  unfold operatorIssues HasOperator
  cases operators.find? fun operator => operator.name == name with
  | none => simp
  | some operator => simp

theorem fieldIssues_eq_nil_iff {operators : List Operator} {field : Field} {index : Nat} :
    fieldIssues operators field index = [] ↔
      ∀ name ∈ field.operators, HasOperator operators field.valueKind.family name :=
  flatMap_zipIdx_eq_nil_iff fun _ _ => operatorIssues_eq_nil_iff

/-- Fields and operators agree exactly if no name is there twice and every operator that a field
lists is one of the table and of the family of the field. -/
theorem consistencyIssues_eq_nil_iff {fields : List Field} {operators : List Operator} :
    consistencyIssues fields operators = [] ↔
      (operators.map Operator.name).Nodup ∧ (fields.map Field.name).Nodup ∧
        ∀ field ∈ fields, ∀ name ∈ field.operators,
          HasOperator operators field.valueKind.family name := by
  simp only [consistencyIssues, List.append_eq_nil_iff, duplicateIssues_eq_nil_iff,
    List.not_mem_nil, not_false_eq_true, implies_true, and_true, and_assoc]
  refine and_congr_right' (and_congr_right' ?_)
  exact flatMap_zipIdx_eq_nil_iff fun _ _ => fieldIssues_eq_nil_iff

theorem ascii_identifier {c : Char} (may : (startsIdentifier c || Text.isAsciiDigit c) = true) :
    c.toNat < 128 ∧ ¬ ('A' ≤ c ∧ c ≤ 'Z') := by
  simp only [startsIdentifier, Text.isAsciiDigit, Bool.or_eq_true, Bool.and_eq_true,
    decide_eq_true_eq, beq_iff_eq, Char.le_def, UInt32.le_iff_toNat_le] at may ⊢
  rcases may with (⟨low, high⟩ | rfl) | ⟨low, high⟩
  · change 97 ≤ c.toNat at low
    change c.toNat ≤ 122 at high
    change c.toNat < 128 ∧ ¬ (65 ≤ c.toNat ∧ c.toNat ≤ 90)
    omega
  · decide
  · change 48 ≤ c.toNat at low
    change c.toNat ≤ 57 at high
    change c.toNat < 128 ∧ ¬ (65 ≤ c.toNat ∧ c.toNat ≤ 90)
    omega

theorem lowerBetween_identifier {c : Char} {before after : List Char}
    (may : (startsIdentifier c || Text.isAsciiDigit c) = true) :
    Text.lowerBetween before c after = [c] := by
  obtain ⟨ascii, notCapital⟩ := ascii_identifier may
  have notSigma : c ≠ 'Σ' := by
    rintro rfl
    exact absurd ascii (by decide)
  have notDotted : c ≠ 'İ' := by
    rintro rfl
    exact absurd ascii (by decide)
  rw [Text.lowerBetween, if_neg notSigma, if_neg notDotted, Text.lowerChar, if_neg notCapital,
    if_pos ascii]

theorem mem_identifier {name : String} (identifier : isIdentifier name = true) :
    name.toList ≠ [] ∧
      ∀ c ∈ name.toList, (startsIdentifier c || Text.isAsciiDigit c) = true := by
  unfold isIdentifier at identifier
  split at identifier
  next => cases identifier
  next c rest chars =>
    obtain ⟨starts, others⟩ := Bool.and_eq_true_iff.mp identifier
    rw [chars, List.forall_mem_cons]
    exact ⟨List.cons_ne_nil _ _, by rw [starts, Bool.true_or], List.all_eq_true.mp others⟩

theorem lower_identifier {name : String} (identifier : isIdentifier name = true) :
    Text.lower name = name := by
  have same : ∀ chars before, (∀ c ∈ chars, (startsIdentifier c || Text.isAsciiDigit c) = true) →
      Text.lowerAfter before chars = chars := by
    intro chars
    induction chars with
    | nil => exact fun _ _ => rfl
    | cons c rest ih =>
        intro before all
        obtain ⟨first, others⟩ := List.forall_mem_cons.mp all
        rw [Text.lowerAfter, lowerBetween_identifier first, ih (c :: before) others]
        rfl
  rw [Text.lower, same name.toList [] (mem_identifier identifier).2, String.ofList_toList]

end FilterQuery.Schema
