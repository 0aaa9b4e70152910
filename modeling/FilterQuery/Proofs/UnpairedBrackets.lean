import FilterQuery.Proofs.Edits
import FilterQuery.Proofs.Levels
import FilterQuery.Proofs.Members
import FilterQuery.Proofs.Reports
import Mathlib.Data.List.Induction

namespace FilterQuery

variable {schema : Schema} {slots : List Slot} {slot : Slot} {token : Token} {half : Bracket}
  {depth index opened closed : Nat}

/-- Whether two slots hold the two halves of a pair: between them every bracket has its partner. -/
def ArePartners (slots : List Slot) (opened closed : Nat) : Prop :=
  ∃ front inner back,
    slots = front ++ .resolved (.bracket .opening) ::
      (inner ++ .resolved (.bracket .closing) :: back) ∧
    opened = front.length ∧ closed = front.length + 1 + inner.length ∧
    IsLevel (resolvedTokens inner)

theorem ArePartners.held (partners : ArePartners slots opened closed) :
    slots[opened]? = some (.resolved (.bracket .opening)) ∧
      slots[closed]? = some (.resolved (.bracket .closing)) := by
  obtain ⟨front, inner, back, rfl, rfl, rfl, -⟩ := partners
  refine ⟨getElem?_length_append, ?_⟩
  rw [← List.cons_append, ← List.append_assoc]
  have place : front.length + 1 + inner.length =
      (front ++ .resolved (.bracket .opening) :: inner).length := by
    rw [List.length_append, List.length_cons]
    omega
  rw [place, getElem?_length_append]

/-- Pairs that have one half in common are the same pair. -/
theorem ArePartners.unique {otherOpened otherClosed : Nat}
    (partners : ArePartners slots opened closed)
    (others : ArePartners slots otherOpened otherClosed) :
    opened = otherOpened ↔ closed = otherClosed := by
  obtain ⟨front, inner, back, rfl, rfl, rfl, level⟩ := partners
  obtain ⟨before, within, behind, split, rfl, rfl, levelWithin⟩ := others
  constructor
  · intro same
    obtain ⟨rfl, later⟩ := List.append_inj split same
    obtain ⟨-, later⟩ := List.cons.inj later
    rcases split_append_cons later with ⟨rest, rfl, -⟩ | ⟨rfl, -, -⟩ | ⟨rest, rfl, -⟩
    · rw [resolvedTokens_append] at level
      exact absurd (isLevel_iff.mp level).1 levelWithin.not_closesOnlyOpen
    · rfl
    · rw [resolvedTokens_append] at levelWithin
      exact absurd (isLevel_iff.mp levelWithin).1 level.not_closesOnlyOpen
  · intro same
    rw [← List.cons_append, ← List.cons_append, ← List.append_assoc, ← List.append_assoc] at split
    have long : (front ++ .resolved (.bracket .opening) :: inner).length =
        (before ++ .resolved (.bracket .opening) :: within).length := by
      rw [List.length_append, List.length_append, List.length_cons, List.length_cons]
      omega
    obtain ⟨earlier, -⟩ := List.append_inj split long
    rcases split_append_cons earlier with ⟨rest, -, rfl⟩ | ⟨rfl, -, -⟩ | ⟨rest, -, rfl⟩
    · rw [resolvedTokens_append] at levelWithin
      exact absurd levelWithin level.not_isLevel_opening
    · rfl
    · rw [resolvedTokens_append] at level
      exact absurd level levelWithin.not_isLevel_opening

/-- Whether a slot holds one half of a pair of brackets, and no slot holds the other. -/
def IsUnpaired (slots : List Slot) (half : Bracket) (index : Nat) : Prop :=
  slots[index]? = some (.resolved (.bracket half)) ∧
    ∀ other, ¬ ArePartners slots index other ∧ ¬ ArePartners slots other index

/-- Whether a bracket stands open behind some slots, inside it as many others as the depth says. -/
def StandsOpen (slots : List Slot) (depth index : Nat) : Prop :=
  ∃ front inner, slots = front ++ .resolved (.bracket .opening) :: inner ∧
    index = front.length ∧ ClosesOnlyOpen (resolvedTokens inner) ∧
    balance (resolvedTokens inner) = depth

theorem exists_slots_of_tokens {read unread : List Token}
    (split : resolvedTokens slots = read ++ token :: unread) :
    ∃ front back, slots = front ++ .resolved token :: back ∧ resolvedTokens front = read := by
  induction slots generalizing read with
  | nil => cases read <;> cases split
  | cons slot rest ih =>
      cases slot with
      | pending candidates text =>
          obtain ⟨front, back, rfl, same⟩ := ih split
          exact ⟨.pending candidates text :: front, back, rfl, same⟩
      | resolved first =>
          cases read with
          | nil =>
              cases split
              exact ⟨[], rest, rfl, rfl⟩
          | cons _ read =>
              obtain ⟨rfl, later⟩ := List.cons.inj split
              obtain ⟨front, back, rfl, rfl⟩ := ih later
              exact ⟨.resolved first :: front, back, rfl, rfl⟩

theorem isUnpaired_opening_iff :
    IsUnpaired slots .opening index ↔ ∃ depth, StandsOpen slots depth index := by
  constructor
  · intro unpaired
    obtain ⟨held, alone⟩ := unpaired
    obtain ⟨front, inner, rfl, rfl⟩ := split_of_getElem? held
    have closes : ClosesOnlyOpen (resolvedTokens inner) := by
      refine Classical.byContradiction fun uncovered => ?_
      obtain ⟨read, unread, split, level⟩ := not_closesOnlyOpen_iff.mp uncovered
      obtain ⟨within, back, rfl, rfl⟩ := exists_slots_of_tokens split
      exact (alone _).1 ⟨front, within, back, rfl, rfl, rfl, level⟩
    exact ⟨_, front, inner, rfl, rfl, closes, (Int.toNat_of_nonneg closes.balance_nonneg).symm⟩
  · intro standing
    obtain ⟨depth, front, inner, rfl, rfl, closes, -⟩ := standing
    have held : (front ++ .resolved (.bracket .opening) :: inner)[front.length]? =
      some (.resolved (.bracket .opening)) := getElem?_length_append
    refine ⟨held, fun other => ⟨fun partners => ?_, fun partners => ?_⟩⟩
    · obtain ⟨before, within, back, split, place, -, level⟩ := partners
      obtain ⟨-, later⟩ := List.append_inj split place
      obtain ⟨-, rfl⟩ := List.cons.inj later
      rw [resolvedTokens_append] at closes
      exact level.not_closesOnlyOpen closes
    · rw [partners.held.2] at held
      cases held

theorem isUnpaired_closing_iff : IsUnpaired slots .closing index ↔
    slots[index]? = some (.resolved (.bracket .closing)) ∧
      ∀ opened, ¬ StandsOpen (slots.take index) 0 opened := by
  apply and_congr_right
  intro held
  obtain ⟨before, back, rfl, rfl⟩ := split_of_getElem? held
  rw [List.take_left]
  constructor
  · intro alone opened standing
    obtain ⟨front, inner, rfl, rfl, closes, even⟩ := standing
    refine (alone front.length).2 ⟨front, inner, back, ?_, rfl, ?_, isLevel_iff.mpr ⟨closes, even⟩⟩
    · rw [List.append_assoc, List.cons_append]
    · rw [List.length_append, List.length_cons]
      omega
  · intro level other
    refine ⟨fun partners => ?_, fun partners => ?_⟩
    · rw [partners.held.1] at held
      cases held
    · obtain ⟨front, inner, rest, split, -, place, inside⟩ := partners
      rw [← List.cons_append, ← List.append_assoc] at split
      have long : before.length = (front ++ .resolved (.bracket .opening) :: inner).length := by
        rw [List.length_append, List.length_cons]
        omega
      obtain ⟨rfl, -⟩ := List.append_inj split long
      exact level _ ⟨front, inner, rfl, rfl, (isLevel_iff.mp inside).1, inside.balance_eq⟩

theorem balance_resolved : balance (resolvedTokens [.resolved token]) = token.weight :=
  Int.add_zero _

/-- Brackets that were open before one more slot are as deep behind it as the slot makes them. -/
theorem standsOpen_concat {before : Nat}
    (deeper : before + balance (resolvedTokens [slot]) = depth) :
    StandsOpen (slots ++ [slot]) depth index ↔ StandsOpen slots before index := by
  constructor
  · intro standing
    obtain ⟨front, inner, split, rfl, closes, count⟩ := standing
    rcases split_append_cons split with ⟨read, rfl, rfl⟩ | ⟨-, rfl, rfl⟩ | ⟨read, -, none⟩
    · rw [resolvedTokens_append] at closes count
      rw [balance_append] at count
      exact ⟨front, read, rfl, rfl, (closesOnlyOpen_append.mp closes).1, by omega⟩
    · -- Behind its own slot the bracket has depth zero, and no other bracket is less deep.
      rw [balance_resolved, Token.weight] at deeper
      simp only [resolvedTokens_nil, balance] at count
      omega
    · cases read <;> cases none
  · intro standing
    obtain ⟨front, inner, rfl, rfl, closes, count⟩ := standing
    have whole : balance (resolvedTokens inner) + balance (resolvedTokens [slot]) = depth := by
      rw [count, deeper]
    refine ⟨front, inner ++ [slot], List.append_assoc _ _ _, rfl, ?_, ?_⟩
    · rw [resolvedTokens_append]
      cases slot with
      | pending candidates text => exact (List.append_nil _).symm ▸ closes
      | resolved token =>
          rw [balance_resolved] at whole
          exact closesOnlyOpen_concat.mpr ⟨closes, whole ▸ Int.natCast_nonneg depth⟩
    · rw [resolvedTokens_append, balance_append, whole]

theorem standsOpen_opened :
    StandsOpen (slots ++ [.resolved (.bracket .opening)]) 0 index ↔ index = slots.length := by
  constructor
  · intro standing
    obtain ⟨front, inner, split, rfl, closes, count⟩ := standing
    rcases split_append_cons split with ⟨read, rfl, rfl⟩ | ⟨rfl, -, -⟩ | ⟨read, -, none⟩
    · rw [resolvedTokens_append] at closes count
      have earlier := (closesOnlyOpen_append.mp closes).1.balance_nonneg
      rw [balance_append, balance_resolved, Token.weight] at count
      omega
    · rfl
    · cases read <;> cases none
  · intro last
    exact ⟨slots, [], rfl, last, closesOnlyOpen_nil, rfl⟩

namespace Inspection

variable {state : Inspection}

theorem seeSlots_concat : state.seeSlots index (slots ++ [slot]) =
    match slot with
    | .pending _ _ => state.seeSlots index slots
    | .resolved token => (state.seeSlots index slots).see (index + slots.length) token := by
  induction slots generalizing state index with
  | nil => cases slot <;> rfl
  | cons first rest ih =>
      have place : index + (first :: rest).length = index + 1 + rest.length := by
        rw [List.length_cons]
        omega
      rw [place]
      cases first with
      | pending candidates text => exact ih
      | resolved token => exact ih

/-- The check knows at every place which brackets are open there, the innermost first. -/
theorem openedAt_getElem?_iff :
    (start.seeSlots 0 slots).openedAt[depth]? = some index ↔ StandsOpen slots depth index := by
  induction slots using List.reverseRecOn generalizing depth with
  | nil =>
      constructor
      · intro found
        cases found
      · intro standing
        obtain ⟨front, inner, split, -⟩ := standing
        cases front <;> cases split
  | append_singleton slots slot ih =>
      rw [seeSlots_concat]
      cases slot with
      | pending candidates text => exact ih.trans (standsOpen_concat (Int.add_zero _)).symm
      | resolved token =>
          cases token with
          | field | operator | value | combinator =>
              exact ih.trans (standsOpen_concat (Int.add_zero _)).symm
          | bracket half =>
              cases half with
              | opening =>
                  cases depth with
                  | zero =>
                      rw [standsOpen_opened]
                      simp only [see, Nat.zero_add, List.getElem?_cons_zero, Option.some.injEq]
                      exact eq_comm
                  | succ depth => exact ih.trans (standsOpen_concat rfl).symm
              | closing =>
                  have shallower : ((depth + 1 : Nat) : Int) + -1 = depth := by omega
                  simp only [see, List.getElem?_tail]
                  exact ih.trans (standsOpen_concat shallower).symm

theorem openedAt_eq_nil_iff : (start.seeSlots 0 slots).openedAt = [] ↔
    ∀ opened, ¬ StandsOpen slots 0 opened := by
  constructor
  · intro level opened standing
    rw [← openedAt_getElem?_iff, level] at standing
    cases standing
  · intro none
    cases found : (start.seeSlots 0 slots).openedAt with
    | nil => rfl
    | cons opened outer =>
        have innermost : (start.seeSlots 0 slots).openedAt[0]? = some opened := by
          rw [found]
          rfl
        exact absurd (openedAt_getElem?_iff.mp innermost) (none opened)

end Inspection

def Violation.isUnbalanced (violation : Violation) : Bool :=
  match violation.fault with
  | .unbalancedGroup _ => true
  | _ => false

namespace Inspection

variable {state : Inspection}

/-- On the way those closing brackets are reported for which none is open. -/
theorem unbalanced_mem_faultsFrom_iff :
    ⟨index, .unbalancedGroup half⟩ ∈ start.faultsFrom schema 0 slots ↔
      half = .closing ∧ slots[index]? = some (.resolved (.bracket .closing)) ∧
        (start.seeSlots 0 (slots.take index)).openedAt = [] := by
  rw [mem_faultsFrom_iff]
  constructor
  · intro found
    obtain ⟨passed, slot, held, place, finds⟩ := found
    obtain rfl : index = passed := place.trans (Nat.zero_add _)
    cases finds with
    | resolved finds =>
        cases finds with
        | unopened level => exact ⟨rfl, held, level⟩
  · intro unopened
    obtain ⟨rfl, held, level⟩ := unopened
    exact ⟨index, _, held, (Nat.zero_add _).symm, .resolved (.unopened level)⟩

/-- At the end those opening brackets are reported that are still open. -/
theorem unbalanced_mem_endViolations_iff :
    ⟨index, .unbalancedGroup half⟩ ∈ state.endViolations ↔
      half = .opening ∧ index ∈ state.openedAt := by
  rw [mem_endViolations_iff]
  constructor
  · intro found
    rcases found with ⟨_, _, _, same⟩ | ⟨_, _, _, same⟩ | ⟨place, listed, same⟩
    · cases same
    · cases same
    · cases same
      exact ⟨rfl, listed⟩
  · intro still
    obtain ⟨rfl, listed⟩ := still
    exact .inr (.inr ⟨index, listed, rfl⟩)

theorem filter_tokenFaults : ((state.tokenFaults schema token).map
      (⟨index, ·⟩ : Fault → Violation)).filter Violation.isUnbalanced =
    if token = .bracket .closing ∧ state.openedAt = [] then [⟨index, .unbalancedGroup .closing⟩]
    else [] := by
  by_cases closes : token = .bracket .closing
  · subst closes
    have named : nameFaults schema (.bracket .closing) = [] := rfl
    rw [tokenFaults, named, List.nil_append, List.map_append, List.filter_append, placeFaults,
      closingFaults, List.map_append, List.filter_append]
    have follows : ((adjacencyFaults (state.previousToken.map Token.type)
        (Token.bracket .closing).type).map (⟨index, ·⟩ : Fault → Violation)).filter
          Violation.isUnbalanced = [] := by
      unfold adjacencyFaults
      split <;> rfl
    rw [follows, List.nil_append]
    cases state.openedAt with
    | nil => split <;> rfl
    | cons opened outer => split <;> rfl
  · rw [if_neg fun unopened => closes unopened.1, List.filter_eq_nil_iff]
    intro violation listed
    obtain ⟨fault, found, rfl⟩ := List.mem_map.mp listed
    cases mem_tokenFaults_iff.mp found with
    | unopened => exact absurd rfl closes
    | _ => exact Bool.false_ne_true

theorem filter_endViolations : state.endViolations.filter Violation.isUnbalanced =
    state.openedAt.reverse.map (⟨·, .unbalancedGroup .opening⟩) := by
  have brackets : ∀ places : List Nat,
      (places.map fun place => (⟨place, .unbalancedGroup .opening⟩ : Violation)).filter
        Violation.isUnbalanced = places.map (⟨·, .unbalancedGroup .opening⟩) := by
    simp [List.filter_eq_self, Violation.isUnbalanced]
  rw [endViolations, List.filter_append, List.filter_append, brackets]
  split <;> split <;> rfl

/-- What is open after a token was open before, or is opened by it. -/
theorem openedAt_see_sublist :
    (state.see index token).openedAt.Sublist (index :: state.openedAt) := by
  cases token with
  | field | operator | value | combinator => exact List.sublist_cons_self _ _
  | bracket half =>
      cases half with
      | opening => exact List.Sublist.refl _
      | closing => exact (List.tail_sublist _).trans (List.sublist_cons_self _ _)

theorem descends_behind {places : List Nat} (descends : (index :: places).Pairwise (· > ·))
    {others : List Nat} (listed : others.Sublist (index :: places)) :
    ((index + 1) :: others).Pairwise (· > ·) := by
  refine .cons (fun place member => ?_) (descends.sublist listed)
  rcases List.mem_cons.mp (listed.subset member) with rfl | earlier
  · exact Nat.lt_succ_self _
  · exact Nat.lt_succ_of_lt (List.rel_of_pairwise_cons descends earlier)

/-- Brackets are found in the order of their slots: closing ones on the way, as long as none is
open, and opening ones at the end. -/
theorem unbalanced_ascend (descends : (index :: state.openedAt).Pairwise (· > ·)) :
    ((state.violationsFrom schema index slots).filter Violation.isUnbalanced).Pairwise
        (fun first second => first.index < second.index) ∧
    ∀ violation ∈ (state.violationsFrom schema index slots).filter Violation.isUnbalanced,
      violation.index ∈ state.openedAt ∨ index ≤ violation.index := by
  induction slots generalizing state index with
  | nil =>
      rw [violationsFrom, filter_endViolations, List.pairwise_map, List.pairwise_reverse]
      refine ⟨descends.of_cons, fun violation listed => ?_⟩
      obtain ⟨opened, still, rfl⟩ := List.mem_map.mp listed
      exact .inl (List.mem_reverse.mp still)
  | cons slot rest ih =>
      cases slot with
      | pending candidates text =>
          have typed : (if text.isEmpty || candidates == .valueOnly then []
              else [⟨index, .unresolvedSlot text⟩] : List Violation).filter
                Violation.isUnbalanced = [] := by
            split <;> rfl
          obtain ⟨ascend, placed⟩ := ih (descends_behind descends (List.sublist_cons_self _ _))
          rw [violationsFrom, List.filter_append, typed, List.nil_append]
          exact ⟨ascend, fun violation listed =>
            (placed violation listed).imp_right Nat.le_of_succ_le⟩
      | resolved token =>
          have next : ((index + 1) :: (state.see index token).openedAt).Pairwise (· > ·) :=
            descends_behind descends openedAt_see_sublist
          obtain ⟨ascend, placed⟩ := ih next
          rw [violationsFrom, List.filter_append, filter_tokenFaults]
          split
          next unopened =>
            -- Nothing is open, so whatever is reported later stands behind this bracket.
            obtain ⟨rfl, level⟩ := unopened
            have later : ∀ violation ∈ ((state.see index (.bracket .closing)).violationsFrom schema
                (index + 1) rest).filter Violation.isUnbalanced, index < violation.index := by
              intro violation listed
              rcases placed violation listed with earlier | behind
              · simp [see, level] at earlier
              · exact behind
            refine ⟨.cons later ascend, fun violation listed => .inr ?_⟩
            rcases List.mem_cons.mp listed with rfl | listed
            · exact Nat.le_refl _
            · exact Nat.le_of_lt (later violation listed)
          next =>
            refine ⟨ascend, fun violation listed => ?_⟩
            rcases placed violation listed with earlier | behind
            · rcases List.mem_cons.mp (openedAt_see_sublist.subset earlier) with here | earlier
              · exact .inr (Nat.le_of_eq here.symm)
              · exact .inl earlier
            · exact .inr (Nat.le_of_succ_le behind)

end Inspection

/-- The brackets that are reported for a row of slots are those without a partner, in the order of
the slots and each of them once, whatever else is wrong. -/
theorem validate_unbalanced (schema : Schema) (slots : List Slot) :
    ((validate schema slots).filter Violation.isUnbalanced).Pairwise
      (fun first second => first.index < second.index) ∧
    ∀ index half, ⟨index, .unbalancedGroup half⟩ ∈ validate schema slots ↔
      IsUnpaired slots half index := by
  constructor
  · have none : (0 :: Inspection.start.openedAt).Pairwise (· > ·) := List.pairwise_singleton _ _
    have ascend := (@Inspection.unbalanced_ascend schema slots 0 .start none).1
    rwa [Inspection.filter_validate (ascend.imp Nat.le_of_lt)]
  · intro index half
    rw [Inspection.mem_validate_iff, Inspection.unbalanced_mem_faultsFrom_iff,
      Inspection.unbalanced_mem_endViolations_iff]
    cases half with
    | opening => simp [isUnpaired_opening_iff, List.mem_iff_getElem?,
        Inspection.openedAt_getElem?_iff]
    | closing => simp [isUnpaired_closing_iff, Inspection.openedAt_eq_nil_iff]

end FilterQuery
