import FilterQuery.SlotContext

namespace FilterQuery

variable {slots : List Slot} {tokens : List Token} {slot : Slot} {place : Nat} {index next : UInt64}
  {context : SlotContext}

theorem natAbs_balance_le : (balance tokens).natAbs ≤ tokens.length := by
  induction tokens with
  | nil => exact Nat.le_refl 0
  | cons token rest ih =>
      have step : token.weight.natAbs ≤ 1 := by
        cases token with
        | field | operator | value | combinator => exact Nat.zero_le 1
        | bracket half => cases half <;> exact Nat.le_refl 1
      rw [balance, List.length_cons]
      omega

theorem length_resolvedTokens_le : (resolvedTokens slots).length ≤ slots.length :=
  List.length_filterMap_le _ _

namespace SlotContext

theorem nextIndex?_eq_none_iff : nextIndex? index = none ↔ index.toNat + 1 = UInt64.size := by
  have bound : index.toNat < UInt64.size := index.toNat_lt
  unfold nextIndex?
  split
  next below => exact iff_of_false nofun (Nat.ne_of_lt below)
  next last => exact iff_of_true rfl (Nat.le_antisymm bound (Nat.le_of_not_lt last))

theorem toNat_nextIndex (follows : nextIndex? index = some next) :
    next.toNat = index.toNat + 1 := by
  unfold nextIndex? at follows
  split at follows
  next below =>
    cases follows
    rw [UInt64.toNat_add, UInt64.toNat_one]
    exact Nat.mod_eq_of_lt below
  next => cases follows

theorem around_set : around (slots.set place slot) place = around slots place := by
  rw [around, List.take_set_of_le (Nat.le_refl place), List.drop_set_of_lt (Nat.lt_succ_self place)]
  rfl

theorem around_past_end (past : slots.length ≤ place) :
    around slots place = between (resolvedTokens slots) [] := by
  rw [around, List.take_of_length_le past, List.drop_eq_nil_of_le (Nat.le_succ_of_le past),
    resolvedTokens_nil]

theorem around_bounded : (around slots place).openBefore ≤ slots.length ∧
    (around slots place).closeBefore ≤ slots.length ∧
    (around slots place).unmatchedElsewhere.natAbs ≤ slots.length := by
  have before : (resolvedTokens (slots.take place)).length ≤ slots.length :=
    Nat.le_trans length_resolvedTokens_le (List.length_take_le' _ _)
  have elsewhere : (around slots place).unmatchedElsewhere =
      balance (resolvedTokens (slots.take place ++ slots.drop (place + 1))) := by
    rw [resolvedTokens_append, balance_append]
    rfl
  have fewer : (slots.take place ++ slots.drop (place + 1)).length ≤ slots.length := by
    rw [List.length_append, List.length_take, List.length_drop]
    omega
  refine ⟨Nat.le_trans List.countP_le_length before, Nat.le_trans List.countP_le_length before, ?_⟩
  rw [elsewhere]
  exact Nat.le_trans natAbs_balance_le (Nat.le_trans length_resolvedTokens_le fewer)

/-- Whether the scope before a place has no combinator, so that one is looked for behind it. -/
def LooksAhead (slots : List Slot) (place : Nat) : Prop :=
  (ScopeStack.start.seeAll (resolvedTokens (slots.take place))).top.combinator = none

theorem ofIndex?_of_joined (joined : ¬ LooksAhead slots index.toNat) :
    ofIndex? slots index = some (around slots index.toNat) := by
  obtain ⟨found, known⟩ := Option.ne_none_iff_exists'.mp joined
  simp only [ofIndex?, known, around, between, Option.some_or]

theorem ofIndex?_of_looksAhead (looks : LooksAhead slots index.toNat) :
    ofIndex? slots index = (nextIndex? index).map fun _ => around slots index.toNat := by
  rw [LooksAhead] at looks
  simp only [ofIndex?, looks]
  cases follows : nextIndex? index with
  | none => rfl
  | some next =>
      simp only [Option.map_some, toNat_nextIndex follows, around, between, looks, Option.none_or]

theorem ofIndex?_eq_none_iff :
    ofIndex? slots index = none ↔ index.toNat + 1 = UInt64.size ∧ LooksAhead slots index.toNat := by
  by_cases looks : LooksAhead slots index.toNat
  · rw [ofIndex?_of_looksAhead looks, Option.map_eq_none_iff, nextIndex?_eq_none_iff,
      and_iff_left looks]
  · rw [ofIndex?_of_joined looks]
    exact iff_of_false nofun fun missing => looks missing.2

theorem ofIndex?_eq_some (told : ofIndex? slots index ≠ none) :
    ofIndex? slots index = some (around slots index.toNat) := by
  by_cases looks : LooksAhead slots index.toNat
  · rw [ofIndex?_of_looksAhead looks] at told ⊢
    obtain ⟨next, follows⟩ := Option.ne_none_iff_exists'.mp (mt Option.map_eq_none_iff.mpr told)
    rw [follows]
    rfl
  · exact ofIndex?_of_joined looks

theorem looksAhead_set : LooksAhead (slots.set place slot) place ↔ LooksAhead slots place := by
  rw [LooksAhead, List.take_set_of_le (Nat.le_refl place), LooksAhead]

theorem ofIndex?_set : ofIndex? (slots.set index.toNat slot) index = ofIndex? slots index := by
  by_cases missing : ofIndex? slots index = none
  · rw [missing, ofIndex?_eq_none_iff, looksAhead_set]
    exact ofIndex?_eq_none_iff.mp missing
  · have told : ofIndex? (slots.set index.toNat slot) index ≠ none := by
      rwa [ne_eq, ofIndex?_eq_none_iff, looksAhead_set, ← ofIndex?_eq_none_iff]
    rw [ofIndex?_eq_some told, ofIndex?_eq_some missing, around_set]

theorem ofIndex?_past_end (past : slots.length ≤ index.toNat) (told : ofIndex? slots index ≠ none) :
    ofIndex? slots index = some (between (resolvedTokens slots) []) := by
  rw [ofIndex?_eq_some told, around_past_end past]

/-- Past the last slot every index has the surroundings of the end, but nothing is told of the
greatest index if the scope at the end has no combinator.  What the slot at the index holds plays
no part, and no count exceeds the number of slots. -/
theorem ofIndex?_stable (slots : List Slot) (fits : slots.length < UInt64.size) (index : UInt64) :
    (ofIndex? slots index = none ↔ index.toNat + 1 = UInt64.size ∧
      (ScopeStack.start.seeAll (resolvedTokens slots)).top.combinator = none) ∧
    (slots.length ≤ index.toNat → ofIndex? slots index ≠ none →
      ofIndex? slots index = ofIndex? slots (.ofNat slots.length)) ∧
    (∀ slot, ofIndex? (slots.set index.toNat slot) index = ofIndex? slots index) ∧
    ∀ context, ofIndex? slots index = some context →
      context.openBefore ≤ slots.length ∧ context.closeBefore ≤ slots.length ∧
        context.unmatchedElsewhere.natAbs ≤ slots.length := by
  have atEnd : (UInt64.ofNat slots.length).toNat = slots.length := UInt64.toNat_ofNat_of_lt' fits
  refine ⟨?_, fun past told => ?_, fun slot => ofIndex?_set, fun context told => ?_⟩
  · rw [ofIndex?_eq_none_iff]
    apply and_congr_right
    intro greatest
    have past : slots.length ≤ index.toNat := by omega
    rw [LooksAhead, List.take_of_length_le past]
  · by_cases same : index.toNat = slots.length
    · rw [← same, UInt64.ofNat_toNat]
    · have notLast : ofIndex? slots (.ofNat slots.length) ≠ none := by
        intro missing
        have last := (ofIndex?_eq_none_iff.mp missing).1
        have bound : index.toNat < UInt64.size := index.toNat_lt
        omega
      rw [ofIndex?_past_end past told, ofIndex?_past_end (Nat.le_of_eq atEnd.symm) notLast]
  · have found : ofIndex? slots index ≠ none := told ▸ Option.some_ne_none context
    cases told.symm.trans (ofIndex?_eq_some found)
    exact around_bounded

/-- A rule, the combinator behind it, and a group that was begun. -/
def begunGroup : List Slot :=
  [.resolved (.field "text"), .resolved (.operator "in"), .resolved (.value "\"a\""),
    .resolved (.combinator .or), .resolved (.bracket .opening)]

theorem begunGroup_stable : begunGroup.length < UInt64.size ∧
    ofIndex? begunGroup 18446744073709551614 = ofIndex? begunGroup 5 ∧
    ofIndex? begunGroup 5 =
      some ⟨some (.bracket .opening), none, none, 1, 0, 1⟩ := by
  have fits : begunGroup.length < UInt64.size := by decide
  obtain ⟨-, past, -⟩ := ofIndex?_stable begunGroup fits 18446744073709551614
  exact ⟨fits, past (by decide) (by decide +kernel), by decide +kernel⟩

/-- The combinator before the group belongs to the outer scope, so nothing is told of the greatest
index. -/
theorem begunGroup_untold : begunGroup.length ≤ (18446744073709551615 : UInt64).toNat ∧
    ofIndex? begunGroup 18446744073709551615 = none ∧
    ofIndex? begunGroup (.ofNat begunGroup.length) ≠ none := by
  decide +kernel

end SlotContext
end FilterQuery
