import FilterQuery.Proofs.Legality
import FilterQuery.Proofs.Unfinished
import FilterQuery.Schema.Basic

namespace FilterQuery

variable {schema : Schema} {tokens : List Token} {token : Token} {state : Inspection}
  {slots : List Slot} {index : Nat} {violation : Violation} {fault : Fault}

/-- The violations that a query may have that is still being entered: a rule without all its parts,
a combinator at the very end, and brackets that are open. -/
inductive Tolerable (tokens : List Token) : Violation → Prop
  | rule {index : Nat} {missing : TokenType} : Tolerable tokens ⟨index, .incompleteRule missing⟩
  | combinator {front : List Token} {last found : Combinator}
      (ends : tokens = front ++ [.combinator last]) :
      Tolerable tokens ⟨front.length, .danglingCombinator found⟩
  | bracket {index : Nat} : Tolerable tokens ⟨index, .unbalancedGroup .opening⟩

/-- Whether nothing worse is reported on some tokens. -/
def Passable (schema : Schema) (tokens : List Token) : Prop :=
  ∀ violation ∈ validate schema (tokens.map .resolved), Tolerable tokens violation

theorem Unfinished.tolerable (unfinished : Unfinished tokens violation) :
    Tolerable tokens violation := by
  cases unfinished with
  | operator last => exact .rule
  | value last => exact .rule
  | member last => exact .combinator last
  | closing opened unclosed => exact .bracket

/-- Whether a fault says of a token that it is wrong where it stands, and not only that something
has to follow or was typed elsewhere. -/
def Fault.Condemns (token : Token) : Fault → Prop
  | .incompleteRule _ | .unbalancedGroup .opening | .unresolvedSlot _ => False
  | .danglingCombinator _ => token = .bracket .closing
  | _ => True

namespace Inspection

/-- A pending slot into which nothing was typed is passed over at the end as well. -/
theorem violationsFrom_concat_pending {candidates : TypeSet} :
    state.violationsFrom schema index (slots ++ [.pending candidates ""]) =
      state.violationsFrom schema index slots := by
  induction slots generalizing state index with
  | nil => rfl
  | cons slot rest ih =>
      cases slot with
      | pending current text => exact congrArg (_ ++ ·) ih
      | resolved token => exact congrArg (_ ++ ·) ih

theorem Finds.condemns (finds : state.Finds schema token fault) : fault.Condemns token := by
  cases finds with
  | dangling joins => rfl
  | _ => trivial

theorem not_tolerable_of_mem_faultsFrom
    (found : violation ∈ start.faultsFrom schema 0 (tokens.map .resolved)) :
    ¬ Tolerable tokens violation := by
  obtain ⟨passed, slot, held, place, finds⟩ := mem_faultsFrom_iff.mp found
  rw [List.getElem?_map, Option.map_eq_some_iff] at held
  obtain ⟨token, held, rfl⟩ := held
  have condemns := (findsAt_resolved_iff.mp finds).condemns
  intro tolerable
  cases tolerable with
  | rule => exact condemns
  | bracket => exact condemns
  | combinator ends =>
      -- The slot of the fault would hold a combinator and a closing bracket.
      subst condemns ends
      rw [← Nat.zero_add passed, ← place, List.getElem?_concat_length] at held
      cases held

end Inspection

/-- Nothing worse is reported exactly on tokens that are all admitted. -/
theorem passable_iff_viable : Passable schema tokens ↔ Standing.start.Viable schema tokens := by
  constructor
  · intro passable
    have faultless : Inspection.start.faultsFrom schema 0 (tokens.map .resolved) = [] := by
      rw [List.eq_nil_iff_forall_not_mem]
      intro violation found
      have reported := (validate_perm schema (tokens.map .resolved)).mem_iff.mpr
        (List.mem_append_left _ found)
      exact Inspection.not_tolerable_of_mem_faultsFrom found (passable violation reported)
    have viable := (Inspection.coherent_start.faultsFrom_eq_nil_iff.mp faultless).2
    rwa [resolvedTokens_map] at viable
  · intro viable violation reported
    have row := (validate_unfinished (fun _ => rfl : TypeSet.initial ≠ .valueOnly → "" = "") viable).1
    rw [validate, Inspection.violationsFrom_concat_pending] at row
    exact (row violation reported).tolerable

/-- What the place behind some tokens may take is what may be taken between them and nothing. -/
theorem LegalValues.of_around_length :
    LegalValues.of schema (.after (tokens.getLast?.map Token.type))
        (.around (tokens.map .resolved) tokens.length) = .between schema tokens [] := by
  have before : (tokens.map Slot.resolved).take tokens.length = tokens.map .resolved :=
    List.take_of_length_le (Nat.le_of_eq (List.length_map _))
  have after : (tokens.map Slot.resolved).drop (tokens.length + 1) = [] :=
    List.drop_eq_nil_of_le (by rw [List.length_map]; exact Nat.le_succ _)
  rw [between, SlotContext.around, before, after, resolvedTokens_map, resolvedTokens_nil]

/-- A token may be taken behind tokens that the check lets pass exactly if the check lets it pass
there, and it does not open a group directly inside another one. -/
theorem LegalValues.allows_iff_passable (schema : Schema) (tokens : List Token)
    (passable : Passable schema tokens) (token : Token) :
    (LegalValues.of schema (.after (tokens.getLast?.map Token.type))
        (.around (tokens.map .resolved) tokens.length)).allows token = true ↔
      Passable schema (tokens ++ [token]) ∧
        ¬ (token = .bracket .opening ∧ tokens.getLast? = some (.bracket .opening)) := by
  have viable := passable_iff_viable.mp passable
  have lengthens : Passable schema (tokens ++ [token]) ↔
      (Standing.start.seeAll tokens).Admits schema token := by
    rw [passable_iff_viable, Standing.viable_append]
    exact ⟨fun both => both.2.1, fun admits => ⟨viable, admits, trivial⟩⟩
  have unnested : ¬ (token = .bracket .opening ∧ tokens.getLast? = some (.bracket .opening)) ↔
      (token = .bracket .opening →
        (Standing.start.seeAll tokens).previous ≠ some (.bracket .opening)) := by
    rw [Standing.start_previous, not_and]
  rw [of_around_length, between_allows_iff viable, lengthens, unnested]
  constructor
  · intro allowed
    exact allowed.1
  · intro offers
    exact ⟨offers, fitsAround_end viable offers⟩

def openedTokens : List Token :=
  [.field "text", .operator "in", .value "\"a\"", .combinator .or, .bracket .opening]

/-- The check lets a second bracket pass there, but it may not be taken. -/
theorem openedTokens_nest : Passable .builtin openedTokens ∧
    Passable .builtin (openedTokens ++ [.bracket .opening]) ∧
    ¬ (LegalValues.of .builtin (.after (openedTokens.getLast?.map Token.type))
      (.around (openedTokens.map .resolved) openedTokens.length)).allows (.bracket .opening) =
        true := by
  have nested : Standing.start.Viable .builtin (openedTokens ++ [.bracket .opening]) :=
    ⟨⟨rfl, by decide⟩, ⟨_, _, rfl, rfl, by decide, by decide⟩, ⟨_, rfl⟩, ⟨rfl, nofun⟩, rfl, rfl,
      trivial⟩
  have passable : Passable .builtin openedTokens :=
    passable_iff_viable.mpr (Standing.viable_append.mp nested).1
  refine ⟨passable, passable_iff_viable.mpr nested, ?_⟩
  rw [LegalValues.allows_iff_passable .builtin openedTokens passable (.bracket .opening)]
  intro taken
  exact taken.2 ⟨rfl, rfl⟩

end FilterQuery
