import FilterQuery.Json.Basic
import Mathlib.Data.String.Basic

namespace FilterQuery.Json

variable {key other : String} {value found : Json} {members sorted : List (String × Json)}
  {items : List Json} {text : String}

theorem member?_cons : member? key ((other, value) :: members) =
    (member? key members).or (if other = key then some value else none) := by
  rw [member?, member?, List.reverse_cons, List.find?_append, Option.map_or]
  by_cases same : other = key <;> simp [same]

theorem member?_isSome_iff :
    (member? key members).isSome ↔ ∃ member ∈ members, member.1 = key := by
  simp [member?, List.find?_isSome]

theorem member?_eq_none (absent : ∀ member ∈ members, member.1 ≠ key) :
    member? key members = none := by
  rw [← Option.not_isSome_iff_eq_none, member?_isSome_iff]
  rintro ⟨member, listed, same⟩
  exact absent member listed same

/-- Members in the order of their keys, with no key there twice. -/
def Ascending (members : List (String × Json)) : Prop :=
  members.Pairwise fun first second => first.1 < second.1

theorem fst_of_mem_insertMember {member : String × Json}
    (listed : member ∈ insertMember key value members) : member.1 = key ∨ member ∈ members := by
  induction members with
  | nil =>
      rw [List.mem_singleton.mp listed]
      exact .inl rfl
  | cons first rest ih =>
      obtain ⟨other, held⟩ := first
      unfold insertMember at listed
      split at listed
      next same =>
        rcases List.mem_cons.mp listed with rfl | later
        · exact .inl rfl
        · exact .inr (List.mem_cons_of_mem _ later)
      next =>
        split at listed
        next before =>
          rcases List.mem_cons.mp listed with rfl | later
          · exact .inl rfl
          · exact .inr later
        next =>
          rcases List.mem_cons.mp listed with rfl | later
          · exact .inr List.mem_cons_self
          · exact (ih later).imp_right (List.mem_cons_of_mem _)

theorem ascending_insertMember (ascending : Ascending members) :
    Ascending (insertMember key value members) := by
  induction members with
  | nil => exact List.pairwise_singleton _ _
  | cons first rest ih =>
      obtain ⟨other, held⟩ := first
      obtain ⟨above, others⟩ := List.pairwise_cons.mp ascending
      unfold insertMember
      split
      next same =>
        subst same
        exact List.pairwise_cons.mpr ⟨above, others⟩
      next differ =>
        split
        next before =>
          refine List.pairwise_cons.mpr ⟨?_, ascending⟩
          intro member listed
          rcases List.mem_cons.mp listed with rfl | later
          · exact before
          · exact before.trans (above member later)
        next behind =>
          refine List.pairwise_cons.mpr ⟨?_, ih others⟩
          intro member listed
          rcases fst_of_mem_insertMember listed with same | later
          · change other < member.1
            rw [same]
            exact lt_of_le_of_ne (not_lt.mp behind) (Ne.symm differ)
          · exact above member later

theorem member?_insertMember (ascending : Ascending members) :
    member? key (insertMember other value members) =
      if other = key then some value else member? key members := by
  induction members with
  | nil => rw [insertMember, member?_cons]; rfl
  | cons first rest ih =>
      obtain ⟨name, held⟩ := first
      obtain ⟨above, others⟩ := List.pairwise_cons.mp ascending
      -- The last member with a key counts, so none may follow the place where one is put.
      have beyond {bound : String} (upTo : bound ≤ name) : member? bound rest = none :=
        member?_eq_none fun member listed => (upTo.trans_lt (above member listed)).ne'
      unfold insertMember
      split
      next same =>
        subst same
        rw [member?_cons, member?_cons]
        by_cases asked : other = key
        · subst asked
          simp [beyond le_rfl]
        · simp [asked]
      next differ =>
        split
        next before =>
          rw [member?_cons]
          by_cases asked : other = key
          · subst asked
            simp [member?_cons, beyond before.le, Ne.symm differ]
          · simp [asked]
        next behind =>
          rw [member?_cons, ih others, member?_cons]
          by_cases asked : other = key <;> simp [asked]

/-- Members that are put into a sorted list are the ones that count. -/
theorem member?_tidyMembers (ascending : Ascending sorted) :
    member? key (tidyMembers members sorted) =
      ((member? key members).map tidy).or (member? key sorted) := by
  induction members generalizing sorted with
  | nil => rfl
  | cons first rest ih =>
      obtain ⟨other, value⟩ := first
      rw [tidyMembers, ih (ascending_insertMember ascending), member?_insertMember ascending,
        member?_cons]
      by_cases same : other = key <;> cases member? key rest <;> simp [same]

@[simp] theorem member?_tidied :
    member? key (tidyMembers members []) = (member? key members).map tidy := by
  rw [member?_tidyMembers List.Pairwise.nil]
  exact Option.or_none

theorem forall_mem_tidied_iff (holds : String → Prop) :
    (∀ member ∈ tidyMembers members [], holds member.1) ↔ ∀ member ∈ members, holds member.1 := by
  -- A key is there exactly if something is found by it.
  have byKey (members : List (String × Json)) : (∀ member ∈ members, holds member.1) ↔
      ∀ key, (member? key members).isSome → holds key := by
    simp only [member?_isSome_iff]
    exact ⟨fun all key ⟨member, listed, same⟩ => same ▸ all member listed,
      fun all member listed => all member.1 ⟨member, listed, rfl⟩⟩
  simp only [byKey, member?_tidied, Option.isSome_map]

@[simp] theorem tidyItems_eq : tidyItems items = items.map tidy := by
  induction items with
  | nil => rfl
  | cons item rest ih => exact congrArg (item.tidy :: ·) ih

@[simp] theorem tidy_eq_string_iff : value.tidy = .string text ↔ value = .string text := by
  cases value <;> simp [tidy]

theorem tidy_eq_array_iff :
    value.tidy = .array items ↔ ∃ held, value = .array held ∧ held.map tidy = items := by
  cases value <;> simp [tidy]

theorem tidy_eq_texts_iff {texts : List String} :
    value.tidy = .array (texts.map .string) ↔ value = .array (texts.map .string) := by
  have each (items : List Json) : items.map tidy = texts.map .string ↔ items = texts.map .string := by
    induction items generalizing texts with
    | nil => exact Iff.rfl
    | cons item rest ih => cases texts <;> simp [ih]
  cases value <;> simp [tidy, each]

end FilterQuery.Json
