import FilterQuery.Proofs.Lowering
import FilterQuery.Proofs.OfferedTokens
import FilterQuery.Proofs.SchemaPrinting
import FilterQuery.Proofs.SessionSafety
import Mathlib.Data.List.Basic

namespace FilterQuery

namespace Draft

variable {draft : Draft} {index : Nat} {key : MatchKey} {typed more : String}

/-- Whether a slot that has typed text in it shows only entries that it showed for the first part of
the text already, in the same order. -/
def NarrowsAt (draft : Draft) (index : Nat) (key : MatchKey) (typed more : String) : Prop :=
  ∃ wider narrower, draft.suggestMatching index typed key = .ok wider ∧
    draft.suggestMatching index (typed ++ more) key = .ok narrower ∧ narrower.Sublist wider

theorem accepts_of_append {name label : String}
    (occurs : (Text.lower typed).toList <:+: (Text.lower (typed ++ more)).toList)
    (accepted : key.accepts (typed ++ more) name label = true) :
    key.accepts typed name label = true := by
  rw [MatchKey.accepts_iff] at accepted ⊢
  rcases accepted with inLabel | ⟨named, inName⟩
  · exact .inl (occurs.trans inLabel)
  · exact .inr ⟨named, occurs.trans inName⟩

theorem narrowsAt_of_infix (within : index < draft.size)
    (occurs : (Text.lower typed).toList <:+: (Text.lower (typed ++ more)).toList) :
    draft.NarrowsAt index key typed more := by
  obtain ⟨offered, shown⟩ := @suggest_of_lt draft index "" within
  have narrower := draft.suggestMatching_eq_filter index (typed ++ more) key
  have wider := draft.suggestMatching_eq_filter index typed key
  rw [shown] at narrower wider
  exact ⟨_, _, wider, narrower, List.monotone_filter_right offered
    fun entry accepted => accepts_of_append occurs accepted⟩

end Draft

namespace Schema

variable {label : String}

def labelled (label : String) : Schema :=
  ⟨[⟨"note", label, .text, ["in"]⟩], builtinOperators⟩

theorem labelled_loaded (some : label ≠ "") :
    ofJson (labelled label).toJson = .ok (labelled label) := by
  have listed : ∀ name ∈ ["in"], name ≠ "" ∧
      ∃ operator ∈ builtinOperators, operator.name = name ∧ operator.family = .text := by
    decide +kernel
  have shaped : PartsShaped (labelled label).fields (labelled label).operators := by
    refine ⟨List.cons_ne_nil _ _, List.cons_ne_nil _ _, ?_, builtinOperators_shaped⟩
    refine List.forall_mem_singleton.mpr ⟨?_, some, fun name declared => (listed name declared).1⟩
    exact (by decide +kernel : isIdentifier "note" = true)
  have consistent : Consistent (labelled label).fields (labelled label).operators := by
    refine ⟨?_, List.pairwise_singleton _ _,
      List.forall_mem_singleton.mpr fun name declared => (listed name declared).2⟩
    exact (by decide +kernel : (builtinOperators.map Operator.name).Nodup)
  exact ofJson_eq_ok_iff.mpr ⟨describes_toJson shaped, _, _, isGivenBy_toJson _, consistent, rfl⟩

end Schema

namespace Draft

variable {typed more : String}

theorem suggest_labelled (label : String) : (Draft.new (.labelled label)).suggest 0 "" =
    .ok [⟨"note", label, .field, .single .operator⟩,
      ⟨"(", "(", .group, .ofList [.field, .group]⟩] := rfl

/-- A field is shown for its whole label, so it must have been shown for the first part of it. -/
theorem infix_of_narrowsAt
    (narrows : (Draft.new (.labelled (typed ++ more))).NarrowsAt 0 .label typed more) :
    (Text.lower typed).toList <:+: (Text.lower (typed ++ more)).toList := by
  obtain ⟨wider, narrower, showsWider, showsNarrower, within⟩ := narrows
  rw [suggestMatching_eq_filter, suggest_labelled] at showsWider showsNarrower
  cases showsWider
  cases showsNarrower
  have whole : MatchKey.label.accepts (typed ++ more) "note" (typed ++ more) = true :=
    MatchKey.accepts_iff.mpr (.inl List.infix_rfl)
  have shown := within.subset (List.mem_filter.mpr ⟨List.mem_cons_self, whole⟩)
  rcases MatchKey.accepts_iff.mp (List.mem_filter.mp shown).2 with inLabel | ⟨named, -⟩
  · exact inLabel
  · cases named

/-- Text put behind typed text only takes entries off the lists of all slots, exactly if the lower
case of what was typed before occurs in that of the whole.  That is so unless a capital sigma ended
a word which now goes on. -/
theorem narrowsAt_iff (typed more : String) :
    (∀ document schema slots index key, Schema.ofJson document = .ok schema →
      index < slots.length → (⟨schema, slots⟩ : Draft).NarrowsAt index key typed more) ↔
    (Text.ReopensSigma [] typed.toList more.toList →
      (Text.lower typed).toList <:+: (Text.lower (typed ++ more)).toList) := by
  constructor
  · intro narrows _
    by_cases nothing : typed ++ more = ""
    · have empty : typed = "" := by
        rw [← String.toList_eq_nil_iff, String.toList_append, List.append_eq_nil_iff] at nothing
        exact String.toList_eq_nil_iff.mp nothing.1
      rw [empty]
      exact List.nil_infix
    · exact infix_of_narrowsAt
        (narrows _ _ _ 0 .label (Schema.labelled_loaded nothing) Nat.zero_lt_one)
  · intro occurs _ schema slots index key _ within
    refine narrowsAt_of_infix within ?_
    by_cases reopens : Text.ReopensSigma [] typed.toList more.toList
    · exact occurs reopens
    · exact (Text.lower_prefix_iff.mpr reopens).isInfix

/-- The field is called for what stands on street signs.  Its label starts with the word for street,
but that word in capitals does not find it.  One letter more does. -/
theorem streetSigns_widen :
    Schema.ofJson (Schema.labelled "ΟΔΟΣΗΜΑΝΣΗ").toJson = .ok (.labelled "ΟΔΟΣΗΜΑΝΣΗ") ∧
      (Draft.new (.labelled "ΟΔΟΣΗΜΑΝΣΗ")).suggest 0 "ΟΔΟΣ" = .ok [] ∧
      (Draft.new (.labelled "ΟΔΟΣΗΜΑΝΣΗ")).suggest 0 ("ΟΔΟΣ" ++ "Η") =
        .ok [⟨"note", "ΟΔΟΣΗΜΑΝΣΗ", .field, .single .operator⟩] ∧
      ¬ (Draft.new (.labelled "ΟΔΟΣΗΜΑΝΣΗ")).NarrowsAt 0 .label "ΟΔΟΣ" "Η" := by
  have before : (Draft.new (.labelled "ΟΔΟΣΗΜΑΝΣΗ")).suggest 0 "ΟΔΟΣ" = .ok [] := by
    decide +kernel
  have behind : (Draft.new (.labelled "ΟΔΟΣΗΜΑΝΣΗ")).suggest 0 ("ΟΔΟΣ" ++ "Η") =
      .ok [⟨"note", "ΟΔΟΣΗΜΑΝΣΗ", .field, .single .operator⟩] := by
    decide +kernel
  refine ⟨Schema.labelled_loaded (by decide), before, behind, ?_⟩
  rintro ⟨wider, narrower, showsWider, showsNarrower, within⟩
  cases before.symm.trans showsWider
  cases behind.symm.trans showsNarrower
  cases within

end Draft
end FilterQuery
