import FilterQuery.Proofs.SchemaLoading

namespace FilterQuery

theorem Field.isGivenBy_toJson (field : Field) : field.IsGivenBy field.toJson := by
  simp [toJson, IsGivenBy, Json.member?]

theorem Operator.isGivenBy_toJson (operator : Operator) : operator.IsGivenBy operator.toJson := by
  simp [toJson, IsGivenBy, Json.member?]

theorem Field.describes_toJson {field : Field} (shaped : field.IsShaped) :
    Schema.Shape.field.Describes field.toJson := by
  refine ⟨⟨?_, ?_, ?_, ?_, trivial⟩, ?_, ?_⟩
  · rintro _ ⟨⟩
    exact shaped.label
  · rintro _ ⟨⟩
    exact shaped.name
  · rintro _ ⟨⟩
    refine ⟨?_, nofun⟩
    intro value listed
    obtain ⟨name, declared, rfl⟩ := List.mem_map.mp listed
    exact shaped.operators name declared
  · rintro _ ⟨⟩
    exact ValueKind.mem_names_iff.mpr ⟨field.valueKind, rfl⟩
  · simp
  · simp [Json.member?]

theorem Operator.describes_toJson {operator : Operator} (shaped : operator.IsShaped) :
    Schema.Shape.operator.Describes operator.toJson := by
  refine ⟨⟨?_, ?_, ?_, trivial⟩, ?_, ?_⟩
  · rintro _ ⟨⟩
    exact OperatorFamily.mem_names_iff.mpr ⟨operator.family, rfl⟩
  · rintro _ ⟨⟩
    exact shaped.label
  · rintro _ ⟨⟩
    exact shaped.name
  · simp
  · simp [Json.member?]

namespace Schema

variable {document : Json} {schema : Schema} {fields : List Field} {operators : List Operator}

theorem isGivenBy_toJson (schema : Schema) :
    IsGivenBy schema.fields schema.operators schema.toJson := by
  refine ⟨⟨schema.fields.map Field.toJson, rfl, ?_⟩,
    .inr ⟨schema.operators.map Operator.toJson, rfl, ?_⟩⟩
  · exact List.forall₂_map_right_iff.mpr
      (List.forall₂_same.mpr fun field _ => field.isGivenBy_toJson)
  · exact List.forall₂_map_right_iff.mpr
      (List.forall₂_same.mpr fun operator _ => operator.isGivenBy_toJson)

theorem describes_toJson (shaped : PartsShaped schema.fields schema.operators) :
    Shape.document.Describes schema.toJson := by
  refine ⟨⟨?_, ?_, trivial⟩, ?_, ?_⟩
  · rintro _ ⟨⟩
    refine ⟨?_, fun _ => List.map_eq_nil_iff.not.mpr shaped.someField⟩
    intro value listed
    obtain ⟨field, place, rfl⟩ := List.mem_map.mp listed
    exact Field.describes_toJson (shaped.fields field place)
  · rintro _ ⟨⟩
    refine ⟨?_, fun _ => List.map_eq_nil_iff.not.mpr shaped.someOperator⟩
    intro value listed
    obtain ⟨operator, place, rfl⟩ := List.mem_map.mp listed
    exact Operator.describes_toJson (shaped.operators operator place)
  · simp
  · simp [Json.member?]

/-- The parts of a schema that was read from a document agree, its completed fields too. -/
theorem consistent_of_loaded (loaded : ofJson document = .ok schema) :
    Consistent schema.fields schema.operators := by
  obtain ⟨-, fields, operators, -, consistent, rfl⟩ := ofJson_eq_ok_iff.mp loaded
  refine ⟨consistent.operatorNames, ?_, ?_⟩
  · change ((fields.map (Field.fill operators)).map Field.name).Nodup
    rw [map_fill_name]
    exact consistent.fieldNames
  · intro field listed name declared
    exact (hasOperator_iff consistent.operatorNames).mp
      (hasOperator_of_loaded loaded listed declared)

/-- What has been filled in stays, and where nothing could be filled in nothing can be. -/
theorem fill_fill (field : Field) :
    (field.fill operators).fill operators = field.fill operators := by
  by_cases none : field.operators.isEmpty = true
  · -- The family and the table are the same the second time.
    have filled : field.fill operators = { field with
        operators := (operators.filter fun operator =>
          operator.family == field.valueKind.family).map Operator.name } := if_pos none
    rw [filled, Field.fill]
    split <;> rfl
  · have kept : field.fill operators = field := if_neg none
    rw [kept, kept]

theorem map_fill_fill : (fields.map (Field.fill operators)).map (Field.fill operators) =
    fields.map (Field.fill operators) := by
  rw [List.map_map]
  exact List.map_congr_left fun field _ => fill_fill field

/-- A schema that was read from a document is read from what is written of it. -/
theorem ofJson_toJson (loaded : ofJson document = .ok schema) :
    ofJson schema.toJson = .ok schema := by
  refine ofJson_eq_ok_iff.mpr ⟨describes_toJson (partsShaped_of_loaded loaded), _, _,
    isGivenBy_toJson schema, consistent_of_loaded loaded, ?_⟩
  obtain ⟨-, fields, operators, -, -, rfl⟩ := ofJson_eq_ok_iff.mp loaded
  exact congrArg (Schema.mk · operators) map_fill_fill.symm

/-- A document without a comparison, so that its date is left without operators.  Of the two texts
the one lists its operators and the other gets all of them. -/
def diaryDocument : Json :=
  .object [
    ("operators", .array [
      .object [("name", .string "has"), ("label", .string "has"), ("family", .string "text")],
      .object [("name", .string "lacks"), ("label", .string "lacks"),
        ("family", .string "text")]]),
    ("fields", .array [
      .object [("name", .string "day"), ("label", .string "Day"), ("valueKind", .string "date")],
      .object [("name", .string "note"), ("label", .string "Note"), ("valueKind", .string "text")],
      .object [("name", .string "tag"), ("label", .string "Tag"), ("valueKind", .string "text"),
        ("operators", .array [.string "lacks"])]])]

def diarySchema : Schema :=
  ⟨[⟨"day", "Day", .date, []⟩, ⟨"note", "Note", .text, ["has", "lacks"]⟩,
      ⟨"tag", "Tag", .text, ["lacks"]⟩],
    [⟨"has", "has", .text⟩, ⟨"lacks", "lacks", .text⟩]⟩

theorem diaryDocument_loaded : ofJson diaryDocument = .ok diarySchema := by
  have parts : parts? diaryDocument.tidy = some
      ([⟨"day", "Day", .date, []⟩, ⟨"note", "Note", .text, []⟩, ⟨"tag", "Tag", .text, ["lacks"]⟩],
        diarySchema.operators) := by decide +kernel
  rw [ofJson_of_parts (by decide +kernel) parts (by decide +kernel)]
  rfl

theorem diaryDocument_reread : ofJson diaryDocument = .ok diarySchema ∧
    ofJson diarySchema.toJson = .ok diarySchema :=
  ⟨diaryDocument_loaded, ofJson_toJson diaryDocument_loaded⟩

end Schema
end FilterQuery
