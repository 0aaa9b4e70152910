import FilterQuery.Proofs.Exchange
import FilterQuery.Proofs.Seeding
import Mathlib.Data.List.Chain

namespace FilterQuery

/-! Which slots stand side by side.

Unless slots are removed, two tokens that stand side by side are neighbours that the grammar knows,
and no two pending slots do.  Both hold only together: where the slot in front of a pending one is
resolved, its token is the nearest one, and that is the token for which the candidates were chosen.
-/

variable {schema : Schema} {draft edited : Draft} {previous token : Token} {raw text : String}
  {before after : List Token} {front back behind : List Slot} {slot next : Slot}
  {candidates wider : TypeSet} {context : SlotContext}

/-- Whether a token may stand directly behind another one. -/
structure MayFollow (schema : Schema) (previous token : Token) : Prop where
  type : previous.type.follow.contains token.type = true
  afterClosing : previous = .bracket .closing → token.type ≠ .field ∧ token ≠ .bracket .opening
  afterOpening : previous = .bracket .opening →
    token.type ≠ .combinator ∧ token ≠ .bracket .opening
  afterValue : previous.type = .value → token ≠ .bracket .opening
  afterCombinator : previous.type = .combinator → token ≠ .bracket .closing
  declared : ∀ name operator, previous = .field name → token = .operator operator →
    ∃ field, schema.field? name = some field ∧ operator ∈ field.operators

def Named (schema : Schema) : Token → Prop
  | .field name => (schema.field? name).isSome
  | .operator name => (schema.operator? name).isSome
  | _ => True

def Adjoins (schema : Schema) : Slot → Slot → Prop
  | .resolved previous, .resolved token => MayFollow schema previous token
  | .pending _ _, .pending _ _ => False
  | _, _ => True

namespace LegalValues

theorem contains_of_allows (allowed : (LegalValues.of schema candidates context).allows token) :
    candidates.contains token.type = true := by
  cases token with
  | field | operator | combinator | bracket =>
      simp only [allows, of] at allowed
      split at allowed
      · assumption
      · cases allowed
  | value raw => exact allowed

theorem follows_of_allows
    (allowed : (between schema (before ++ [previous]) after).allows token = true) :
    previous.type.follow.contains token.type = true := by
  have member := contains_of_allows allowed
  rwa [List.getLast?_concat] at member

theorem allows_of_within (within : candidates.Within wider)
    (allowed : (LegalValues.of schema candidates context).allows token = true) :
    (LegalValues.of schema wider context).allows token = true := by
  have here := contains_of_allows allowed
  have there := within _ here
  cases token with
  | field | operator | combinator | bracket =>
      simp only [allows, of, Token.type] at allowed here there ⊢
      rw [if_pos here] at allowed
      rwa [if_pos there]
  | value raw => exact there

theorem named_of_allows (allowed : (LegalValues.of schema candidates context).allows token) :
    Named schema token := by
  have here := contains_of_allows allowed
  cases token with
  | value | combinator | bracket => trivial
  | field name =>
      simp only [allows, of, Token.type] at allowed here
      rw [if_pos here] at allowed
      exact (any_legalFields.mp allowed).2
  | operator name =>
      simp only [allows, of, Token.type] at allowed here
      rw [if_pos here, legalOperators] at allowed
      split at allowed
      next field found => exact (any_operatorsFor.mp allowed).1
      next => cases allowed

end LegalValues

theorem fits_of_allows (allowed : (LegalValues.between schema before after).allows token = true) :
    Standing.fits before.getLast? token = true := by
  cases token with
  | field name => exact (LegalValues.between_field_iff.mp allowed).1
  | operator name =>
      obtain ⟨_, _, last, _⟩ := LegalValues.between_operator_iff.mp allowed
      rw [last]
      rfl
  | value raw =>
      obtain ⟨_, last⟩ := LegalValues.between_value_iff.mp allowed
      rw [last]
      rfl
  | combinator found => exact (LegalValues.between_combinator_iff.mp allowed).1
  | bracket half =>
      cases half with
      | opening => simpa [Standing.fits] using LegalValues.between_opening_iff.mp allowed
      | closing => simpa [Standing.fits] using (LegalValues.between_closing_iff.mp allowed).1

theorem mayFollow_of_fits (fits : Standing.fits (some previous) token = true)
    (declared : ∀ name operator, previous = .field name → token = .operator operator →
      ∃ field, schema.field? name = some field ∧ operator ∈ field.operators) :
    MayFollow schema previous token := by
  refine ⟨?_, ?_, ?_, ?_, ?_, declared⟩ <;>
    rcases previous with _ | _ | _ | _ | (_ | _) <;>
    rcases token with _ | _ | _ | _ | (_ | _) <;>
    simp [Standing.fits, startsMember, endsMember, Token.type, TokenType.follow] at fits ⊢

theorem mayFollow_of_allows (last : before.getLast? = some previous)
    (allowed : (LegalValues.between schema before after).allows token = true) :
    MayFollow schema previous token := by
  refine mayFollow_of_fits (last ▸ fits_of_allows allowed) ?_
  rintro name operator rfl rfl
  obtain ⟨fieldName, field, isLast, found, -, declared⟩ :=
    LegalValues.between_operator_iff.mp allowed
  rw [last] at isLast
  cases isLast
  exact ⟨field, found, declared⟩

theorem MayFollow.reword (follows : MayFollow schema previous (.value raw)) :
    MayFollow schema previous (.value text) :=
  { follows with
    afterClosing := fun _ => ⟨nofun, nofun⟩
    afterOpening := fun _ => ⟨nofun, nofun⟩
    afterValue := fun _ => nofun
    afterCombinator := fun _ => nofun
    declared := fun _ _ _ => nofun }

theorem MayFollow.of_reword (follows : MayFollow schema (.value raw) token) :
    MayFollow schema (.value text) token :=
  ⟨follows.type, nofun, nofun, fun _ => follows.afterValue rfl, nofun, fun _ _ => nofun⟩

theorem adjoins_reseed : Adjoins schema (slot.reseed candidates) next ↔ Adjoins schema slot next := by
  cases slot with
  | resolved token => rfl
  | pending current text =>
      obtain ⟨typed, reseeded⟩ := Slot.reseed_pending candidates current text
      rw [reseeded]
      cases next <;> rfl

theorem Adjoins.withText {previous : Slot} (joined : Adjoins schema previous slot)
    (isValue : slot.isValueSlot = true) : Adjoins schema previous (Draft.withText text slot) := by
  cases previous with
  | pending candidates typed => cases slot <;> exact joined
  | resolved previous =>
      match slot, isValue, joined with
      | .pending _ _, _, _ => trivial
      | .resolved (.value _), _, joined => exact joined.reword

theorem Adjoins.of_withText (joined : Adjoins schema slot next)
    (isValue : slot.isValueSlot = true) : Adjoins schema (Draft.withText text slot) next := by
  cases next with
  | pending candidates typed => cases slot <;> exact joined
  | resolved token =>
      match slot, isValue, joined with
      | .pending _ _, _, _ => trivial
      | .resolved (.value _), _, joined => exact joined.of_reword

theorem isChain_reseed : (slot.reseed candidates :: back).IsChain (Adjoins schema) ↔
    (slot :: back).IsChain (Adjoins schema) := by
  simp only [List.isChain_cons, adjoins_reseed]

theorem refit_isChain {wasPending : Bool}
    (refits : refit schema before token wasPending back = some behind)
    (chain : back.IsChain (Adjoins schema)) :
    (.resolved token :: behind).IsChain (Adjoins schema) := by
  unfold refit at refits
  split at refits
  next =>
    cases refits
    exact List.isChain_pair.mpr trivial
  next candidates text rest =>
    cases refits
    refine List.isChain_cons.mpr ⟨?_, isChain_reseed.mpr chain⟩
    intro first same
    obtain ⟨typed, reseeded⟩ := Slot.reseed_pending token.type.follow candidates text
    cases same
    rw [reseeded]
    trivial
  next next rest =>
    split at refits
    next fit =>
      cases refits
      have last : (before ++ [token]).getLast? = some token := List.getLast?_concat
      have follows : MayFollow schema token next :=
        mayFollow_of_allows last (Bool.and_eq_true_iff.mp fit).2
      exact List.isChain_cons_cons.mpr ⟨follows, chain⟩
    next =>
      split at refits
      · cases refits
        exact List.isChain_cons_cons.mpr ⟨trivial, List.isChain_cons_cons.mpr ⟨trivial, chain⟩⟩
      · cases refits

theorem isChain_concat {slots : List Slot} :
    (slots ++ [slot]).IsChain (Adjoins schema) ↔
      slots.IsChain (Adjoins schema) ∧ ∀ last ∈ slots.getLast?, Adjoins schema last slot := by
  simp [List.isChain_append]

theorem adjoins_of_allows
    (allowed : (LegalValues.between schema (resolvedTokens front) after).allows token = true) :
    ∀ last ∈ front.getLast?, Adjoins schema last (.resolved token) := by
  intro last isLast
  obtain ⟨rest, rfl⟩ := List.getLast?_eq_some_iff.mp isLast
  cases last with
  | pending candidates text => trivial
  | resolved previous =>
      refine mayFollow_of_allows ?_ allowed
      rw [resolvedTokens_append]
      exact List.getLast?_concat

namespace Draft

/-- What is taken at a slot may follow the nearest token, since the candidates do. -/
theorem between_of_taken (seeded : Seeded true none false (front ++ slot :: back))
    (chain : (front ++ slot :: back).IsChain (Adjoins schema))
    (legal : (LegalValues.of schema (candidatesBehind front slot)
      (.between (resolvedTokens front) after)).allows token = true) :
    (LegalValues.between schema (resolvedTokens front) after).allows token = true := by
  cases slot with
  | resolved old => exact legal
  | pending candidates text =>
      refine LegalValues.allows_of_within (seeded.within (.inr ?_)) legal
      -- Only a resolved slot stands in front of a pending one.
      have joined := (isChain_concat.mp (List.isChain_split.mp chain).1).2
      cases last : front.getLast? with
      | none => rw [endsPending, last]; rfl
      | some slot =>
          cases slot with
          | resolved previous => rw [endsPending, last]; rfl
          | pending current typed => exact absurd (joined _ last) id

theorem between_of_groupFits
    (fits : groupFits ⟨schema, withGroup (front ++ back) front.length⟩ front.length = true) :
    (LegalValues.between schema (resolvedTokens front)
        (.bracket .closing :: resolvedTokens back)).allows (.bracket .opening) = true ∧
      ∀ token rest, back = .resolved token :: rest →
        (LegalValues.between schema (resolvedTokens front ++ [.bracket .opening, .bracket .closing])
          (resolvedTokens rest)).allows token = true := by
  rw [withGroup_append, groupFits, Bool.and_eq_true, Bool.and_eq_true] at fits
  obtain ⟨⟨-, opens⟩, follows⟩ := fits
  constructor
  · have inside : resolvedTokens (.fresh .initial :: .resolved (.bracket .closing) ::
        reseedFirst TokenType.group.follow back) = .bracket .closing :: resolvedTokens back := by
      rw [resolvedTokens_cons, resolvedTokens_cons, resolvedTokens_reseedFirst]
      rfl
    rwa [allows_resolved rfl, inside] at opens
  · rintro token rest rfl
    have behind : front ++ Slot.resolved (.bracket .opening) :: .fresh .initial ::
        .resolved (.bracket .closing) :: .resolved token :: rest =
          (front ++ [.resolved (.bracket .opening), .fresh .initial,
            .resolved (.bracket .closing)]) ++ .resolved token :: rest := by
      rw [List.append_assoc]
      rfl
    have length : front.length + 3 = (front ++ [Slot.resolved (.bracket .opening),
        .fresh .initial, .resolved (.bracket .closing)]).length := by
      rw [List.length_append]
      rfl
    simp only [reseedFirst, Slot.reseed, behind, length,
      List.getElem?_append_right (Nat.le_refl _), Nat.sub_self, List.getElem?_cons_zero,
      Bool.and_eq_true] at follows
    rw [allows_resolved rfl, resolvedTokens_append] at follows
    exact follows.2

theorem Performs.isChain {edit : Edit} (performs : draft.Performs edit edited)
    (keeps : edit.keepsSlots = true) (seeded : Seeded true none false draft.slots)
    (chain : draft.slots.IsChain (Adjoins draft.schema)) :
    edited.slots.IsChain (Adjoins draft.schema) := by
  cases performs with
  | @takes _ front back behind slot token taken split legal refits =>
      rw [split] at seeded chain
      obtain ⟨inFront, after⟩ := List.isChain_split.mp chain
      have allowed := between_of_taken seeded chain legal
      have joined : (front ++ [Slot.resolved token]).IsChain (Adjoins draft.schema) :=
        isChain_concat.mpr ⟨(isChain_concat.mp inFront).1, adjoins_of_allows allowed⟩
      exact List.isChain_split.mpr ⟨joined, refit_isChain refits after.tail⟩
  | @rewords front back slot text split isValue quoted =>
      rw [split] at chain
      obtain ⟨inFront, after⟩ := List.isChain_split.mp chain
      obtain ⟨before, joined⟩ := isChain_concat.mp inFront
      rw [List.isChain_cons] at after
      refine List.isChain_split.mpr ⟨isChain_concat.mpr ⟨before, ?_⟩, ?_⟩
      · exact fun last isLast => (joined last isLast).withText isValue
      · exact List.isChain_cons.mpr
          ⟨fun next isNext => (after.1 next isNext).of_withText isValue, after.2⟩
  | @groups front back split fits =>
      rw [split] at fits chain ⊢
      obtain ⟨opens, follows⟩ := between_of_groupFits fits
      obtain ⟨before, after, -⟩ := List.isChain_append.mp chain
      have joined : (front ++ [Slot.resolved (.bracket .opening)]).IsChain
          (Adjoins draft.schema) := isChain_concat.mpr ⟨before, adjoins_of_allows opens⟩
      rw [withGroup_append]
      refine List.isChain_split.mpr ⟨joined, List.isChain_cons_cons.mpr ⟨trivial,
        List.isChain_cons_cons.mpr ⟨trivial, ?_⟩⟩⟩
      cases back with
      | nil => exact .singleton _
      | cons next rest =>
          refine List.isChain_cons_cons.mpr ⟨?_, isChain_reseed.mpr after⟩
          cases next with
          | pending candidates text =>
              obtain ⟨typed, reseeded⟩ :=
                Slot.reseed_pending TokenType.group.follow candidates text
              rw [reseeded]
              trivial
          | resolved token =>
              have last : (resolvedTokens front ++
                  [Token.bracket .opening, .bracket .closing]).getLast? =
                    some (.bracket .closing) := by
                simp [List.getLast?_append]
              exact mayFollow_of_allows last (follows token rest rfl)
  | removes split unprotected => cases keeps

theorem Performs.named {edit : Edit} (performs : draft.Performs edit edited)
    (named : ∀ token ∈ draft.tokens, Named draft.schema token) :
    ∀ token ∈ edited.tokens, Named draft.schema token := by
  cases performs with
  | @takes _ front back behind slot token taken split legal refits =>
      rw [tokens_split split, List.forall_mem_append, List.forall_mem_append] at named
      rw [Draft.tokens, taken_tokens refits, List.forall_mem_append, List.forall_mem_cons]
      exact ⟨named.1, LegalValues.named_of_allows legal, named.2.2⟩
  | @rewords front back slot text split isValue quoted =>
      rw [tokens_split split, List.forall_mem_append, List.forall_mem_append] at named
      rw [tokens_split rfl, List.forall_mem_append, List.forall_mem_append]
      refine ⟨named.1, ?_, named.2.2⟩
      cases slot with
      | pending candidates typed => exact named.2.1
      | resolved token => exact List.forall_mem_singleton.mpr trivial
  | @groups front back split fits =>
      rw [Draft.tokens, split, resolvedTokens_append, List.forall_mem_append] at named
      rw [Draft.tokens, split, withGroup_tokens, List.forall_mem_append, List.forall_mem_cons,
        List.forall_mem_cons]
      exact ⟨named.1, trivial, trivial, named.2⟩
  | @removes front back slot split unprotected =>
      rw [tokens_split split, List.forall_mem_append, List.forall_mem_append] at named
      rw [Draft.tokens, split, withoutSlot_append]
      split
      · intro token listed
        cases listed
      · rw [resolvedTokens_append, resolvedTokens_reseedFirst, List.forall_mem_append]
        exact ⟨named.1, named.2.2⟩

end Draft

/-- What is legal side by side, what names there are, and what pending slots wait for. -/
structure NeighboursLegal (schema : Schema) (slots : List Slot) : Prop where
  tokens : ∀ index previous token, slots[index]? = some (.resolved previous) →
    slots[index + 1]? = some (.resolved token) → MayFollow schema previous token
  named : ∀ token ∈ resolvedTokens slots, Named schema token
  apart : ∀ index slot next, slots[index]? = some slot → slots[index + 1]? = some next →
    ¬ (slot.isPending = true ∧ next.isPending = true)
  first : ∀ candidates text, slots[0]? = some (.pending candidates text) →
    candidates.Within .initial
  candidates : ∀ index previous candidates text, slots[index]? = some (.resolved previous) →
    slots[index + 1]? = some (.pending candidates text) → candidates.Within previous.type.follow

namespace Run

variable {permitted : Edit → Bool} {history : List (Draft × Edit)}

theorem named (run : Run permitted schema history draft) :
    ∀ token ∈ draft.tokens, Named schema token := by
  induction run with
  | start =>
      intro token listed
      cases listed
  | next run may performed ih =>
      rw [← run.schema_eq] at ih ⊢
      exact (Draft.performs performed).named ih

theorem isChain (run : Run Edit.keepsSlots schema history draft) :
    draft.slots.IsChain (Adjoins schema) := by
  induction run with
  | start => exact .singleton _
  | next run may performed ih =>
      rw [← run.schema_eq] at ih ⊢
      exact (Draft.performs performed).isChain may run.seeded ih

/-- As long as no slot is removed, all slots have legal neighbours, those of an inserted group and
of a gap that was opened included. -/
theorem neighboursLegal (run : Run Edit.keepsSlots schema history draft) :
    NeighboursLegal schema draft.slots := by
  have chain := run.isChain
  have joined : ∀ index slot next, draft.slots[index]? = some slot →
      draft.slots[index + 1]? = some next → Adjoins schema slot next := by
    intro index slot next found following
    obtain ⟨within, rfl⟩ := List.getElem?_eq_some_iff.mp found
    obtain ⟨below, rfl⟩ := List.getElem?_eq_some_iff.mp following
    exact chain.getElem index below
  refine ⟨fun index previous token => joined index _ _, run.named, ?_, ?_, ?_⟩
  · intro index slot next found following pending
    have side := joined index slot next found following
    cases slot <;> cases next <;> simp_all [Slot.isPending, Adjoins]
  · intro candidates text found
    obtain ⟨front, back, split, length⟩ := split_of_getElem? found
    rw [List.eq_nil_of_length_eq_zero length.symm] at split
    exact (split ▸ run.seeded).within (.inr rfl)
  · intro index previous candidates text found following
    obtain ⟨front, back, split, rfl⟩ := split_of_getElem? found
    rw [split, List.getElem?_append_right (Nat.le_add_right _ 1), Nat.add_sub_cancel_left,
      List.getElem?_cons_succ] at following
    cases back with
    | nil => cases following
    | cons next rest =>
        cases following
        have seeded := run.seeded
        rw [split, seeded_append] at seeded
        simpa [TypeSet.after] using seeded.2.1

end Run

/-- A draft with a group into which a field was put, and a gap behind the field. -/
def gappedDraft : Draft :=
  ⟨.builtin,
    [.resolved (.bracket .opening), .resolved (.field "text"), .fresh TokenType.field.follow,
      .resolved (.bracket .closing), .fresh TokenType.group.follow]⟩

theorem gappedDraft_neighboursLegal : ∃ history,
    Run Edit.keepsSlots .builtin history gappedDraft ∧
      NeighboursLegal .builtin gappedDraft.slots := by
  have edits : [Edit.insertGroup 0, .resolve 1 "text" .field].foldlM Draft.perform
      (.new .builtin) = .ok gappedDraft := rfl
  have new : Run Edit.keepsSlots .builtin [] (.new .builtin) := .start
  obtain ⟨history, run⟩ := new.of_foldlM (by decide) edits
  exact ⟨_, run, run.neighboursLegal⟩

end FilterQuery
