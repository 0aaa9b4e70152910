import FilterQuery.Proofs.Edits
import FilterQuery.Schema.Basic

namespace FilterQuery

/-! What a pending slot offers, and what stands before it.

A pending slot keeps the candidates that it was given.  An edit gives new ones to the slot directly
behind the place that it changes and to no other, so a pending slot directly behind another pending
one can keep those of a token that is no longer there.
-/

def TypeSet.Within (set other : TypeSet) : Prop :=
  ∀ type, set.contains type = true → other.contains type = true

theorem TypeSet.within_refl (set : TypeSet) : set.Within set :=
  fun _ member => member

/-- Whether pending slots have candidates that may come after the nearest token.  Those directly
behind a pending slot may be exempt. -/
def Seeded (exempt : Bool) (nearest : Option TokenType) (behindPending : Bool) :
    List Slot → Prop
  | [] => True
  | .pending candidates _ :: rest =>
      (exempt && behindPending ∨ candidates.Within (.after nearest)) ∧
        Seeded exempt nearest true rest
  | .resolved token :: rest => Seeded exempt (some token.type) false rest

def DoublyPending : List Slot → Prop
  | .pending _ _ :: .pending _ _ :: _ => True
  | _ => False

def reseedFirst (candidates : TypeSet) : List Slot → List Slot
  | [] => []
  | next :: rest => next.reseed candidates :: rest

@[simp] theorem resolvedTokens_reseedFirst (candidates : TypeSet) (slots : List Slot) :
    resolvedTokens (reseedFirst candidates slots) = resolvedTokens slots := by
  cases slots with
  | nil => rfl
  | cons next rest => simp only [reseedFirst, resolvedTokens_cons, Slot.token?_reseed]

theorem Slot.reseed_pending (candidates current : TypeSet) (text : String) :
    ∃ typed, (Slot.pending current text).reseed candidates = .pending candidates typed := by
  simp only [Slot.reseed]
  split
  · exact ⟨text, rfl⟩
  · exact ⟨Slot.initialText candidates, rfl⟩

section Seeded

variable {exempt behindPending : Bool} {nearest other : Option TokenType} {candidates : TypeSet}
  {text : String} {token : Token} {slot : Slot} {front back : List Slot}

def endsPending (behindPending : Bool) (slots : List Slot) : Bool :=
  (slots.getLast?.map Slot.isPending).getD behindPending

theorem endsPending_cons :
    endsPending behindPending (slot :: back) = endsPending slot.isPending back := by
  rw [endsPending, endsPending, List.getLast?_cons]
  cases back.getLast? <;> rfl

theorem seeded_append : Seeded exempt nearest behindPending (front ++ back) ↔
    Seeded exempt nearest behindPending front ∧
      Seeded exempt (((resolvedTokens front).getLast?.map Token.type).or nearest)
        (endsPending behindPending front) back := by
  induction front generalizing nearest behindPending with
  | nil => simp [Seeded, endsPending]
  | cons slot rest ih =>
      cases slot with
      | pending candidates text =>
          have sameTokens : resolvedTokens (.pending candidates text :: rest) =
              resolvedTokens rest := by simp [Slot.token?]
          rw [List.cons_append, Seeded, Seeded, ih, endsPending_cons, sameTokens, and_assoc]
          rfl
      | resolved token =>
          have last : ((resolvedTokens (.resolved token :: rest)).getLast?.map Token.type).or
              nearest = ((resolvedTokens rest).getLast?.map Token.type).or (some token.type) := by
            simp only [resolvedTokens_cons, Slot.token?, Option.toList_some,
              List.singleton_append, List.getLast?_cons]
            cases (resolvedTokens rest).getLast? <;> rfl
          rw [List.cons_append, Seeded, Seeded, ih, endsPending_cons, last]
          rfl

/-- Behind a pending slot it matters which token is the nearest only if a further pending slot
follows that is not exempt. -/
theorem Seeded.elsewhere (seeded : Seeded exempt nearest true back)
    (alone : exempt = true ∨ ¬ DoublyPending (.pending candidates text :: back)) :
    Seeded exempt other true back := by
  induction back with
  | nil => trivial
  | cons slot rest ih =>
      cases slot with
      | resolved token => exact seeded
      | pending current typed =>
          rcases alone with rfl | alone
          · exact ⟨.inl rfl, ih seeded.2 (.inl rfl)⟩
          · exact absurd trivial alone

theorem Seeded.reseedFirst (seeded : Seeded exempt other behindPending back)
    (alone : exempt = true ∨ ¬ DoublyPending back)
    (fitting : candidates.Within (.after nearest)) (directly : Bool) :
    Seeded exempt nearest directly (reseedFirst candidates back) := by
  cases back with
  | nil => trivial
  | cons slot rest =>
      cases slot with
      | resolved token => exact seeded
      | pending current text =>
          obtain ⟨typed, reseeded⟩ := Slot.reseed_pending candidates current text
          rw [FilterQuery.reseedFirst, reseeded]
          exact ⟨.inr fitting, seeded.2.elsewhere alone⟩

theorem refit_seeded {schema : Schema} {before : List Token} {wasPending : Bool}
    {behind : List Slot} (refits : refit schema before token wasPending back = some behind)
    (seeded : Seeded exempt other behindPending back)
    (alone : exempt = true ∨ ¬ DoublyPending back) :
    Seeded exempt (some token.type) false behind := by
  have follows : token.type.follow.Within (.after (some token.type)) := TypeSet.within_refl _
  unfold refit at refits
  split at refits
  next =>
    cases refits
    exact ⟨.inr follows, trivial⟩
  next candidates text rest =>
    cases refits
    exact seeded.reseedFirst alone follows false
  next following rest =>
    split at refits
    · cases refits
      exact seeded
    · split at refits
      · cases refits
        exact ⟨.inr follows, seeded⟩
      · cases refits

end Seeded

namespace Draft

variable {draft edited : Draft} {front back : List Slot} {slot : Slot}

theorem withGroup_append (front back : List Slot) : withGroup (front ++ back) front.length =
    front ++ .resolved (.bracket .opening) :: .fresh .initial :: .resolved (.bracket .closing) ::
      reseedFirst TokenType.group.follow back := by
  rw [withGroup, List.take_left, List.drop_left, List.append_assoc]
  cases back <;> rfl

theorem withoutSlot_append (front back : List Slot) (slot : Slot) :
    withoutSlot (front ++ slot :: back) front.length =
      if front = [] ∧ back = [] then [.fresh .initial]
      else front ++ reseedFirst (typesAfter front) back := by
  rw [withoutSlot, List.take_left, drop_succ_length_append]
  cases front <;> cases back <;> simp [reseedFirst]

/-- Whether two pending slots stand directly behind the place that an edit changes.  The second of
them is not given new candidates. -/
def Strands (draft : Draft) (edit : Edit) : Prop :=
  match edit with
  | .resolve index _ _ | .commitValue index | .deleteSlot index =>
      DoublyPending (draft.slots.drop (index + 1))
  | .insertGroup index => DoublyPending (draft.slots.drop index)
  | .editValue _ _ => False

theorem strands_of_taken {edit : Edit} {token : Token}
    (taken : draft.taken edit = some (front.length, token))
    (split : draft.slots = front ++ slot :: back) : draft.Strands edit ↔ DoublyPending back := by
  have behind : draft.slots.drop (front.length + 1) = back := by
    rw [split, drop_succ_length_append]
  obtain ⟨place, names⟩ := names_of_taken taken
  cases edit with
  | resolve | commitValue =>
      cases place
      rw [Strands, behind]
  | editValue | insertGroup | deleteSlot => exact names.elim

theorem Performs.seeded {exempt : Bool} {edit : Edit} (performs : draft.Performs edit edited)
    (seeded : Seeded exempt none false draft.slots)
    (alone : exempt = true ∨ ¬ draft.Strands edit) : Seeded exempt none false edited.slots := by
  cases performs with
  | @takes _ front back behind slot token taken split legal refits =>
      rw [strands_of_taken taken split] at alone
      rw [split, seeded_append] at seeded
      obtain ⟨before, after⟩ := seeded
      refine seeded_append.mpr ⟨before, ?_⟩
      cases slot with
      | pending candidates text => exact refit_seeded refits after.2 alone
      | resolved old => exact refit_seeded refits after alone
  | @rewords front back slot text split isValue quoted =>
      rw [split, seeded_append] at seeded
      refine seeded_append.mpr ⟨seeded.1, ?_⟩
      cases slot with
      | pending candidates typed => exact seeded.2
      | resolved token =>
          have same : token.type = .value := beq_iff_eq.mp isValue
          have after := seeded.2
          rw [Seeded, same] at after
          exact after
  | @groups front back split fits =>
      have alone : exempt = true ∨ ¬ DoublyPending back := by
        simpa only [Strands, split, List.drop_left] using alone
      rw [split, seeded_append] at seeded
      rw [split, withGroup_append]
      have inside : TypeSet.initial.Within (.after (some .group)) := by
        intro type
        cases type <;> decide
      refine seeded_append.mpr ⟨seeded.1, .inr inside, ?_⟩
      exact seeded.2.reseedFirst alone (TypeSet.within_refl _) false
  | @removes front back slot split unprotected =>
      have alone : exempt = true ∨ ¬ DoublyPending back := by
        simpa only [Strands, split, drop_succ_length_append] using alone
      rw [split, seeded_append] at seeded
      rw [split, withoutSlot_append]
      split
      · exact ⟨.inr (TypeSet.within_refl _), trivial⟩
      · refine seeded_append.mpr ⟨seeded.1, ?_⟩
        have fitting : (typesAfter front).Within
            (.after (((resolvedTokens front).getLast?.map Token.type).or none)) := by
          rw [Option.or_none]
          exact TypeSet.within_refl _
        cases slot with
        | pending candidates text => exact seeded.2.2.reseedFirst alone fitting _
        | resolved token =>
            have after : Seeded exempt (some token.type) false back := seeded.2
            exact after.reseedFirst alone fitting _

end Draft

theorem seeded_new {exempt : Bool} (schema : Schema) :
    Seeded exempt none false (Draft.new schema).slots :=
  ⟨.inr (TypeSet.within_refl _), trivial⟩

namespace Run

variable {permitted : Edit → Bool} {schema : Schema} {history : List (Draft × Edit)}
  {draft : Draft}

/-- In every run the candidates of a pending slot fit to the nearest token, unless the slot directly
before is pending too. -/
theorem seeded (run : Run permitted schema history draft) :
    Seeded true none false draft.slots := by
  induction run with
  | start => exact seeded_new schema
  | next run may performed ih => exact (Draft.performs performed).seeded ih (.inl rfl)

theorem seeded_of_not_strands (run : Run permitted schema history draft)
    (alone : ∀ step ∈ history, ¬ step.1.Strands step.2) :
    Seeded false none false draft.slots := by
  induction run with
  | start => exact seeded_new schema
  | next run may performed ih =>
      rw [List.forall_mem_append, List.forall_mem_singleton] at alone
      exact (Draft.performs performed).seeded (ih alone.1) (.inr alone.2)

end Run

theorem LegalValues.type_of_mem_choices {schema : Schema} {candidates : TypeSet}
    {context : SlotContext} {choice : Token × String}
    (listed : choice ∈ (LegalValues.of schema candidates context).choices) :
    candidates.contains choice.1.type = true := by
  simp only [choices, of, List.mem_append, List.mem_map] at listed
  rcases listed with ((⟨_, known, rfl⟩ | ⟨_, known, rfl⟩) | ⟨_, known, rfl⟩) | ⟨_, known, rfl⟩ <;>
    exact (List.mem_ite_nil_right.mp known).1

namespace Draft

variable {draft : Draft} {index : Nat} {typed : String} {offered : List Suggestion}

theorem candidates_of_suggest (suggested : draft.suggest index typed = .ok offered) :
    ∃ front slot back, draft.slots = front ++ slot :: back ∧ index = front.length ∧
      ∀ entry ∈ offered, (candidatesBehind front slot).contains entry.type = true := by
  cases addressed : draft.slot index with
  | error error =>
      rw [suggest, suggestMatching, legalValues, candidateTypes, addressed] at suggested
      cases suggested
  | ok slot =>
      obtain ⟨front, back, split, rfl⟩ := split_of_slot addressed
      refine ⟨front, slot, back, split, rfl, ?_⟩
      rw [suggest, suggestMatching, legalValues_eq split] at suggested
      cases suggested
      intro entry listed
      obtain ⟨choice, kept, rfl⟩ := List.mem_map.mp listed
      exact LegalValues.type_of_mem_choices ((List.mem_filter.mp kept).1)

end Draft

theorem Seeded.within {exempt : Bool} {front back : List Slot} {candidates : TypeSet}
    {text : String} (seeded : Seeded exempt none false (front ++ .pending candidates text :: back))
    (directly : exempt = false ∨ endsPending false front = false) :
    candidates.Within (typesAfter front) := by
  have here := (seeded_append.mp seeded).2.1
  rw [Option.or_none] at here
  rcases here with exempted | within
  · rcases directly with rfl | settled
    · cases exempted
    · rw [settled, Bool.and_false] at exempted
      cases exempted
  · exact within

/-- Whatever is done to a draft, deletions included, a slot offers only types that may follow the
nearest token before it, unless it is a pending slot directly behind another pending slot.  Those
do so too as long as nothing was changed directly in front of two pending slots. -/
theorem Run.suggest_follows {permitted : Edit → Bool} {schema : Schema}
    {history : List (Draft × Edit)} {draft : Draft} {index : Nat} {typed : String}
    {offered : List Suggestion} (run : Run permitted schema history draft)
    (suggested : draft.suggest index typed = .ok offered)
    (settled : (∀ step ∈ history, ¬ step.1.Strands step.2) ∨
      ∀ before, index = before + 1 → ¬ DoublyPending (draft.slots.drop before)) :
    ∀ entry ∈ offered, (typesAfter (draft.slots.take index)).contains entry.type = true := by
  obtain ⟨front, slot, back, split, rfl, offers⟩ := Draft.candidates_of_suggest suggested
  rw [split, List.take_left]
  cases slot with
  | resolved token => exact offers
  | pending candidates text =>
      have within : candidates.Within (typesAfter front) := by
        rcases settled with alone | directly
        · have seeded := run.seeded_of_not_strands alone
          exact (split ▸ seeded).within (.inl rfl)
        · refine (split ▸ run.seeded).within (.inr ?_)
          cases last : front.getLast? with
          | none => rw [endsPending, last]; rfl
          | some previous =>
              obtain ⟨rest, rfl⟩ := List.getLast?_eq_some_iff.mp last
              have here := directly rest.length (List.length_append)
              rw [split, List.append_assoc, List.drop_left] at here
              cases previous with
              | resolved token => rw [endsPending, last]; rfl
              | pending current typed => exact absurd trivial here
      exact fun entry listed => within _ (offers entry listed)

def emptyGroupDraft : Draft :=
  ⟨.builtin,
    [.resolved (.bracket .opening), .fresh .initial, .resolved (.bracket .closing),
      .fresh TokenType.group.follow]⟩

/-- A draft with two pending slots, after the closing bracket of an empty group was removed. -/
def openedDraft : Draft :=
  ⟨.builtin,
    [.resolved (.bracket .opening), .fresh .initial, .fresh TokenType.group.follow]⟩

theorem openedDraft_suggest_follows : ∃ history offered,
    Run (fun _ => true) .builtin history openedDraft ∧
      (∀ step ∈ history, ¬ step.1.Strands step.2) ∧ openedDraft.suggest 2 "" = .ok offered ∧
      ∀ entry ∈ offered, (typesAfter (openedDraft.slots.take 2)).contains entry.type = true := by
  have inserted : (Draft.new .builtin).perform (.insertGroup 0) = .ok emptyGroupDraft := rfl
  have removed : emptyGroupDraft.perform (.deleteSlot 2) = .ok openedDraft := rfl
  have opened : Run (fun _ => true) .builtin _ openedDraft :=
    (Run.start.next rfl inserted).next rfl removed
  refine ⟨_, _, opened, ?_, rfl, opened.suggest_follows rfl (.inl ?_)⟩ <;>
    exact List.forall_mem_cons.mpr ⟨id, List.forall_mem_singleton.mpr id⟩

/-- The draft after a field was taken in place of the bracket.  The last slot still has the
candidates of a slot behind a bracket. -/
def strandedDraft : Draft :=
  ⟨.builtin,
    [.resolved (.field "text"), .fresh TokenType.field.follow, .fresh TokenType.group.follow]⟩

theorem strandedDraft_suggests_field : ∃ history offered,
    Run (fun _ => true) .builtin history strandedDraft ∧
      strandedDraft.suggest 2 "" = .ok offered ∧
      ∃ entry ∈ offered, (typesAfter (strandedDraft.slots.take 2)).contains entry.type = false := by
  have edits : [Edit.insertGroup 0, .deleteSlot 2, .resolve 0 "text" .field].foldlM Draft.perform
      (.new .builtin) = .ok strandedDraft := rfl
  have new : Run (fun _ => true) .builtin [] (.new .builtin) := .start
  obtain ⟨history, run⟩ := new.of_foldlM (fun _ _ => rfl) edits
  exact ⟨_, _, run, rfl, _, List.mem_cons_self, rfl⟩

end FilterQuery
