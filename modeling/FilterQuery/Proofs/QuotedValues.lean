import FilterQuery.Proofs.NextToken
import FilterQuery.Proofs.Outline
import FilterQuery.Proofs.Seeding
import Mathlib.Data.List.Forall2

namespace FilterQuery

variable {schema : Schema} {draft edited : Draft} {slot : Slot} {token : Token} {index : Nat}
  {candidates : TypeSet} {name text : String} {type : TokenType} {back behind : List Slot}

/-- Whether a value, or what was typed into a slot that waits for one, stands between quotes, and
nothing was typed into a slot that waits for anything else. -/
def Slot.KeepsQuotes : Slot → Prop
  | .resolved (.value raw) => ∃ value, Text.Encloses raw value
  | .resolved _ => True
  | .pending candidates text =>
      if candidates = .valueOnly then ∃ value, Text.Encloses text value else text = ""

theorem keepsQuotes_of_ofName? (named : Token.ofName? type name = some token) :
    (Slot.resolved token).KeepsQuotes := by
  have sameType : token.type = type := Token.type_of_ofName? named
  cases token with
  | field | operator | combinator | bracket => trivial
  | value raw =>
      subst sameType
      cases named
      exact Text.isQuoted_iff.mp (Text.isQuoted_quote name)

theorem keepsQuotes_fresh (candidates : TypeSet) : (Slot.fresh candidates).KeepsQuotes := by
  simp only [Slot.fresh, Slot.KeepsQuotes, Slot.initialText]
  split
  next => exact ⟨"", '"', rfl, rfl⟩
  next => rfl

theorem Slot.KeepsQuotes.reseed (kept : slot.KeepsQuotes) (candidates : TypeSet) :
    (slot.reseed candidates).KeepsQuotes := by
  cases slot with
  | resolved token => exact kept
  | pending current text =>
      simp only [Slot.reseed]
      split
      next same =>
        -- The text stays where a value is waited for before and after, or neither time.
        have waits : current = .valueOnly ↔ candidates = .valueOnly := by
          rw [← beq_iff_eq, ← beq_iff_eq (a := candidates), beq_iff_eq.mp same]
        simpa only [KeepsQuotes, waits] using kept
      next => exact keepsQuotes_fresh candidates

theorem keepsQuotes_withText (isValue : slot.isValueSlot = true)
    (quoted : Text.isQuoted text = true) : (Draft.withText text slot).KeepsQuotes := by
  have encloses := Text.isQuoted_iff.mp quoted
  cases slot with
  | resolved token => exact encloses
  | pending candidates typed =>
      have waits : candidates = .valueOnly := beq_iff_eq.mp isValue
      rwa [Draft.withText, Slot.KeepsQuotes, if_pos waits]

theorem Slot.KeepsQuotes.untyped (kept : slot.KeepsQuotes) : Inspection.Untyped slot := by
  intro isPending notValue
  cases slot with
  | resolved token => cases isPending
  | pending candidates text =>
      have waits : candidates ≠ .valueOnly := by simpa [isValueSlot] using notValue
      rwa [KeepsQuotes, if_neg waits] at kept

theorem keepsQuotes_reseedFirst (kept : ∀ slot ∈ back, slot.KeepsQuotes) (candidates : TypeSet) :
    ∀ slot ∈ reseedFirst candidates back, slot.KeepsQuotes := by
  cases back with
  | nil => exact kept
  | cons next rest =>
      rw [List.forall_mem_cons] at kept
      exact List.forall_mem_cons.mpr ⟨kept.1.reseed candidates, kept.2⟩

namespace Draft

/-- What is taken has been named in the edit, or in the slot whose value is entered. -/
theorem named_of_taken {edit : Edit} (taken : draft.taken edit = some (index, token)) :
    ∃ type name, Token.ofName? type name = some token := by
  obtain ⟨-, names⟩ := names_of_taken taken
  cases edit with
  | resolve place name type => exact ⟨type, name, names.named⟩
  | commitValue place =>
      obtain ⟨slot, -, rfl⟩ := names
      exact ⟨.value, slot.text, rfl⟩
  | editValue | insertGroup | deleteSlot => exact names.elim

theorem Performs.keepsQuotes {edit : Edit} (performs : draft.Performs edit edited)
    (kept : ∀ slot ∈ draft.slots, slot.KeepsQuotes) :
    ∀ slot ∈ edited.slots, slot.KeepsQuotes := by
  cases performs with
  | @takes _ front back behind slot token taken split legal refits =>
      rw [split, List.forall_mem_append, List.forall_mem_cons] at kept
      obtain ⟨type, name, named⟩ := named_of_taken taken
      rw [List.forall_mem_append, List.forall_mem_cons]
      exact ⟨kept.1, keepsQuotes_of_ofName? named, forall_mem_of_refit refits keepsQuotes_fresh
        (fun _ _ kept => kept.reseed _) kept.2.2⟩
  | @rewords front back slot text split isValue quoted =>
      rw [split, List.forall_mem_append, List.forall_mem_cons] at kept
      rw [List.forall_mem_append, List.forall_mem_cons]
      exact ⟨kept.1, keepsQuotes_withText isValue quoted, kept.2.2⟩
  | @groups front back split fits =>
      rw [split, List.forall_mem_append] at kept
      rw [split, withGroup_append, List.forall_mem_append, List.forall_mem_cons,
        List.forall_mem_cons, List.forall_mem_cons]
      exact ⟨kept.1, trivial, keepsQuotes_fresh _, trivial, keepsQuotes_reseedFirst kept.2 _⟩
  | @removes front back slot split unprotected =>
      rw [split, List.forall_mem_append, List.forall_mem_cons] at kept
      rw [split, withoutSlot_append]
      split
      · exact List.forall_mem_singleton.mpr (keepsQuotes_fresh _)
      · exact List.forall_mem_append.mpr ⟨kept.1, keepsQuotes_reseedFirst kept.2.2 _⟩

end Draft

theorem Run.keepsQuotes {permitted : Edit → Bool} {history : List (Draft × Edit)}
    (run : Run permitted schema history draft) : ∀ slot ∈ draft.slots, slot.KeepsQuotes := by
  induction run with
  | start => exact List.forall_mem_singleton.mpr (keepsQuotes_fresh _)
  | next run may performed ih => exact (Draft.performs performed).keepsQuotes ih

theorem fault_ne_of_mem_validate {slots : List Slot} {violation : Violation}
    (untyped : ∀ slot ∈ slots, Inspection.Untyped slot)
    (found : violation ∈ validate schema slots) (text : String) :
    violation.fault ≠ .unresolvedSlot text := by
  intro unresolved
  rcases Inspection.mem_validate_iff.mp found with before | atEnd
  · obtain ⟨passed, slot, held, -, finds⟩ := Inspection.mem_faultsFrom_iff.mp before
    rw [unresolved] at finds
    cases finds with
    | resolved finds => cases finds
    | typed typed => exact typed (untyped slot (List.mem_of_getElem? held))
  · rcases Inspection.mem_endViolations_iff.mp atEnd with
      ⟨_, _, _, rfl⟩ | ⟨_, _, _, rfl⟩ | ⟨_, _, rfl⟩
    · cases unresolved
    · cases unresolved
    · cases unresolved

def Token.written? : Token → Option String
  | .value raw => some raw
  | _ => none

/-- The rules of a phrase have its values without their quotes, in the same order. -/
theorem Derives.values {phrase : Phrase} {tokens : List Token}
    (derives : Derives schema phrase tokens) (rest : List Token) :
    (consecutiveRules (tokens ++ rest)).map Rule.value =
      (tokens.filterMap Token.written?).map Text.unquote ++
        (consecutiveRules rest).map Rule.value := by
  induction derives generalizing rest with
  | rule found known declared => rfl
  | emptyGroup => rfl
  | @group _ tokens inside ih =>
      have written : (tokens ++ [Token.bracket .closing]).filterMap Token.written? =
          tokens.filterMap Token.written? := by
        rw [List.filterMap_append]
        exact List.append_nil _
      rw [List.cons_append, List.append_assoc]
      change (consecutiveRules (tokens ++ .bracket .closing :: rest)).map Rule.value =
        ((tokens ++ [Token.bracket .closing]).filterMap Token.written?).map Text.unquote ++ _
      rw [ih, written]
      rfl
  | single only ih => exact ih rest
  | @join combinator tokens last front member frontIH memberIH =>
      rw [List.append_assoc, frontIH, List.cons_append]
      change _ ++ (consecutiveRules (last ++ rest)).map Rule.value = _
      rw [memberIH, List.filterMap_append, List.map_append, List.append_assoc]
      rfl

theorem IsQuery.values {tokens : List Token} (query : IsQuery schema tokens) :
    (consecutiveRules tokens).map Rule.value =
      (tokens.filterMap Token.written?).map Text.unquote := by
  rcases query with rfl | ⟨combinator, derives⟩
  · rfl
  · have values := derives.values []
    rwa [List.append_nil, consecutiveRules, List.map_nil, List.append_nil] at values

theorem Draft.ruleGroup_values {group : RuleGroup} (taken : draft.ruleGroup = .ok group) :
    group.leaves.map Rule.value = (draft.tokens.filterMap Token.written?).map Text.unquote := by
  have valid : draft.violations = [] := violations_of_ruleGroup taken
  obtain ⟨-, viable, finished⟩ := validate_eq_nil_iff_viable.mp valid
  obtain ⟨read, same, -, leaves, -⟩ := ruleGroup_of_valid valid
  rw [taken] at same
  cases same
  rw [leaves]
  exact (viable_finished_iff.mp ⟨viable, finished⟩).values

/-- Whatever is done to a draft, deletions included, its values and what is typed for one stand
between two equal quotes, and nothing is typed anywhere else.  So nothing is ever reported as typed
but not taken, and the rules have the values of the draft without the quotes at their ends. -/
theorem Run.values_stayQuoted {permitted : Edit → Bool} {history : List (Draft × Edit)}
    (run : Run permitted schema history draft) :
    (∀ slot ∈ draft.slots, slot.KeepsQuotes) ∧
    (∀ violation ∈ draft.violations, ∀ text, violation.fault ≠ .unresolvedSlot text) ∧
    ∀ group, draft.ruleGroup = .ok group →
      List.Forall₂ Text.Encloses (draft.tokens.filterMap Token.written?)
        (group.leaves.map Rule.value) := by
  have kept := run.keepsQuotes
  refine ⟨kept, ?_, ?_⟩
  · intro violation reported
    exact fault_ne_of_mem_validate (fun slot listed => (kept slot listed).untyped) reported
  · intro group taken
    rw [Draft.ruleGroup_values taken, List.forall₂_map_right_iff, List.forall₂_same]
    intro raw listed
    obtain ⟨token, held, written⟩ := List.mem_filterMap.mp listed
    obtain ⟨slot, place, resolved⟩ := List.mem_filterMap.mp held
    match token, written, slot, resolved, place with
    | .value _, rfl, .resolved _, rfl, place =>
        obtain ⟨value, encloses⟩ := kept _ place
        exact (Text.unquote_of_encloses encloses).symm ▸ encloses

/-- A draft whose values are a double quote, between single and between double quotes. -/
def quoteMarksDraft : Draft :=
  ⟨.builtin,
    [.resolved (.field "text"), .resolved (.operator "in"), .resolved (.value "'\"'"),
      .resolved (.combinator .or), .resolved (.field "text"), .resolved (.operator "in"),
      .resolved (.value "\"\"\""), .fresh TokenType.value.follow]⟩

theorem quoteMarksDraft_stayQuoted : ∃ history group,
    Run (fun _ => true) .builtin history quoteMarksDraft ∧
      (∀ slot ∈ quoteMarksDraft.slots, slot.KeepsQuotes) ∧
      quoteMarksDraft.ruleGroup = .ok group ∧
      List.Forall₂ Text.Encloses ["'\"'", "\"\"\""] (group.leaves.map Rule.value) := by
  -- The operator is removed while a value is being typed behind it, and then chosen again.
  have edits : [Edit.resolve 0 "text" .field, .resolve 1 "in" .operator, .editValue 2 "'\"'",
      .commitValue 2, .resolve 3 "OR" .combinator, .resolve 4 "text" .field,
      .resolve 5 "in" .operator, .editValue 6 "'x'", .deleteSlot 5, .resolve 5 "in" .operator,
      .resolve 6 "\"" .value].foldlM Draft.perform (.new .builtin) = .ok quoteMarksDraft := rfl
  have new : Run (fun _ => true) .builtin [] (.new .builtin) := .start
  obtain ⟨history, run⟩ := new.of_foldlM (fun _ _ => rfl) edits
  obtain ⟨kept, -, values⟩ := run.values_stayQuoted
  have valid : quoteMarksDraft.violations = [] := by
    rw [Draft.violations, validate]
    decide +kernel
  obtain ⟨group, taken, -⟩ := Draft.ruleGroup_of_valid valid
  exact ⟨_, group, run, kept, taken, values group taken⟩

end FilterQuery
