import FilterQuery.Proofs.Recognition
import FilterQuery.Proofs.Reports
import FilterQuery.Proofs.Selection

namespace FilterQuery

/-! Which edits bring two combinators into one scope.

A combinator is compared with its scope when it is taken, and at no other time.  A bracket that is
taken or given up in front of existing tokens moves them to other scopes, and nobody looks whether
their combinators agree there.
-/

variable {schema : Schema} {draft edited : Draft} {tokens front back rest : List Token}
  {token : Token} {raw text : String}

def Token.combinator? : Token → Option Combinator
  | .combinator found => some found
  | _ => none

/-- Whether no scope has two different combinators. -/
def OneCombinator (tokens : List Token) : Prop :=
  ∀ front found back, tokens = front ++ .combinator found :: back →
    ∀ first ∈ (ScopeStack.start.seeAll front).top.combinator, first = found

namespace Standing

variable {standing other : Standing} {next : Standing → Token → Prop} {previous before : Option Token}
  {inner outer : List (Option Combinator)} {found chosen : Option Combinator}

def Joins (standing : Standing) (token : Token) : Prop :=
  ∀ found, token = .combinator found → ∀ first ∈ standing.combinator, first = found

theorem joins_value : standing.Joins (.value raw) := by
  intro found same
  cases same

theorem joins_bracket {half : Bracket} : standing.Joins (.bracket half) := by
  intro found same
  cases same

theorem along_iff_split : standing.Along next tokens ↔
    ∀ front token back, tokens = front ++ token :: back → next (standing.seeAll front) token := by
  induction tokens generalizing standing with
  | nil => simp
  | cons token rest ih =>
      rw [along_cons, ih]
      constructor
      · intro along front last back split
        cases front with
        | nil =>
            cases split
            exact along.1
        | cons first front =>
            obtain ⟨rfl, later⟩ := List.cons.inj split
            exact along.2 front last back later
      · intro along
        exact ⟨along [] token rest rfl,
          fun front last back split => along (token :: front) last back (congrArg _ split)⟩

theorem see_congr (combinator : standing.combinator = other.combinator)
    (outer : standing.outer = other.outer) : standing.see token = other.see token := by
  obtain ⟨previous, found, around⟩ := standing
  obtain ⟨previous', found', around'⟩ := other
  cases combinator
  cases outer
  cases token with
  | field | operator | value | combinator => rfl
  | bracket half => cases half <;> cases around <;> rfl

theorem Along.joins_congr (along : standing.Along Joins tokens)
    (combinator : standing.combinator = other.combinator) (outer : standing.outer = other.outer) :
    other.Along Joins tokens := by
  cases tokens with
  | nil => exact along_nil
  | cons token rest =>
      obtain ⟨joins, later⟩ := along
      rw [Joins, combinator] at joins
      exact ⟨joins, see_congr combinator outer ▸ later⟩

/-- Whether some tokens close only brackets that are open. -/
def Covers (standing : Standing) (tokens : List Token) : Prop :=
  ∀ read, read <+: tokens → 0 ≤ (standing.outer.length : Int) + balance read

theorem Covers.depth_see (covers : standing.Covers (token :: rest)) :
    ((standing.see token).outer.length : Int) = standing.outer.length + token.weight := by
  have first := covers [token] ((List.prefix_append_right_inj [token]).mpr List.nil_prefix)
  cases token with
  | field | operator | value | combinator => exact (Int.add_zero _).symm
  | bracket half =>
      cases half with
      | opening => rfl
      | closing =>
          cases around : standing.outer with
          | nil => simp [around, balance, Token.weight] at first
          | cons combinator outer =>
              simp only [see_closing around, List.length_cons, Token.weight]
              omega

theorem Covers.see (covers : standing.Covers (token :: rest)) :
    (standing.see token).Covers rest := by
  intro read begins
  have whole := covers (token :: read) ((List.prefix_append_right_inj [token]).mpr begins)
  rw [covers.depth_see]
  rw [balance] at whole
  omega

theorem Covers.seeAll (covers : standing.Covers (front ++ back)) :
    (standing.seeAll front).Covers back := by
  induction front generalizing standing with
  | nil => exact covers
  | cons token rest ih => exact ih covers.see

theorem covers_start_iff : start.Covers tokens ↔ ClosesOnlyOpen tokens := by
  rw [closesOnlyOpen_iff]
  simp [Covers, start]

/-- A scope may be given another combinator, or none, if that agrees with the next one of the scope
and brackets are closed only where they are open. -/
theorem Along.rejoin (along : (inside previous inner found outer).Along Joins tokens)
    (covers : (inside previous inner found outer).Covers tokens)
    (agrees : ∀ wanted ∈ chosen, ∀ later ∈ combinatorAhead inner.length tokens, later = wanted) :
    (inside before inner chosen outer).Along Joins tokens := by
  induction tokens generalizing previous before inner with
  | nil => exact along_nil
  | cons token rest ih =>
      obtain ⟨joins, later⟩ := along
      have uncovered := covers.see
      by_cases stays : Stays inner token
      · obtain ⟨deeper, sees, ahead⟩ := stays.see
        rw [sees] at later uncovered
        rw [ahead] at agrees
        refine ⟨?_, ?_⟩
        · cases inner with
          | nil => exact fun found same => absurd same ((stays rfl).2 found)
          | cons combinator inner => exact joins
        · rw [sees]
          exact ih later uncovered agrees
      · obtain ⟨rfl, ends⟩ := Classical.not_imp.mp stays
        match token, ends, joins with
        | .field _, ends, _ | .operator _, ends, _ | .value _, ends, _
        | .bracket .opening, ends, _ =>
            exact absurd ⟨(nomatch ·), fun _ same => nomatch same⟩ ends
        | .combinator next, _, joins =>
            -- Whatever the scope had, it has this combinator from here on.
            have known : Agrees found next := joins next rfl
            have wanted : Agrees chosen next :=
              fun first isFirst => (agrees first isFirst next rfl).symm
            have same : found.or (some next) = chosen.or (some next) :=
              known.or_self.trans wanted.or_self.symm
            refine ⟨?_, later.joins_congr same rfl⟩
            intro found isNext
            cases isNext
            exact wanted
        | .bracket .closing, _, _ =>
            -- Outside the scope its combinator is not looked at.
            refine ⟨joins_bracket, ?_⟩
            cases outer with
            | nil =>
                have short := covers [.bracket .closing]
                  ((List.prefix_append_right_inj [Token.bracket .closing]).mpr List.nil_prefix)
                simp [inside, balance, Token.weight] at short
            | cons combinator outer => exact later.joins_congr rfl rfl

theorem see_level (level : token.weight = 0) : standing.see token =
    ⟨some token, standing.combinator.or token.combinator?, standing.outer⟩ := by
  cases token with
  | field | operator | value => simp [Standing.see, Token.combinator?]
  | combinator found => rfl
  | bracket half => cases half <;> cases level

theorem eq_of_bracket_weight {half : Bracket} {old : Option Token}
    (level : (Token.bracket half).weight = balance old.toList) : old = some (.bracket half) := by
  rcases old with _ | (_ | _ | _ | _ | (_ | _)) <;> cases half <;>
    simp [balance, Token.weight] at level ⊢

/-- A token may be exchanged for another one of the same weight if that agrees with the combinators
of its scope on both sides. -/
theorem Along.exchange {old : Option Token}
    (along : standing.Along Joins (old.toList ++ rest))
    (covers : standing.Covers (old.toList ++ rest)) (level : token.weight = balance old.toList)
    (agrees : ∀ wanted ∈ token.combinator?,
      ∀ other ∈ standing.combinator.or (combinatorAhead 0 rest), other = wanted) :
    (standing.see token).Along Joins rest := by
  have after := (along_append.mp along).2
  have uncovered := covers.seeAll
  by_cases turns : token.weight = 0
  · obtain ⟨previous, found, oldSees⟩ : ∃ previous found, standing.seeAll old.toList =
        ⟨previous, standing.combinator.or found, standing.outer⟩ := by
      cases old with
      | none => exact ⟨standing.previous, none, by rw [Option.or_none]; rfl⟩
      | some old =>
          have oldLevel : old.weight = 0 := by simpa [balance, turns] using level.symm
          exact ⟨some old, old.combinator?, see_level oldLevel⟩
    rw [oldSees] at after uncovered
    rw [see_level turns]
    cases known : standing.combinator with
    | some first =>
        rw [known] at after
        exact after.joins_congr rfl rfl
    | none =>
        rw [known] at after uncovered agrees
        have inScope : (inside previous [] found standing.outer).Along Joins rest := after
        exact inScope.rejoin uncovered agrees
  · cases token with
    | field | operator | value | combinator => exact absurd rfl turns
    | bracket half =>
        cases eq_of_bracket_weight level
        exact after

end Standing

theorem oneCombinator_iff : OneCombinator tokens ↔ Standing.start.Along Standing.Joins tokens := by
  rw [Standing.along_iff_split]
  constructor
  · rintro one front token back split found rfl
    rw [Standing.start_combinator]
    exact one front found back split
  · intro along front found back split
    rw [← Standing.start_combinator]
    exact along front _ back split found rfl

namespace Draft

/-- Whether an edit takes a token at a slot, and some combinator behind the slot then stands in a
scope that already has another one. -/
def Regroups (draft : Draft) (edit : Edit) : Prop :=
  ∃ front slot back token, draft.taken edit = some (front.length, token) ∧
    draft.slots = front ++ slot :: back ∧ ∃ read found rest,
      resolvedTokens back = read ++ .combinator found :: rest ∧
        ∃ first ∈ (ScopeStack.start.seeAll (resolvedTokens front ++ token :: read)).top.combinator,
          first ≠ found

/-- Whether an edit takes a bracket at a slot that did not hold it, or takes something else in the
place of a bracket. -/
def TurnsBracket (draft : Draft) (edit : Edit) : Prop :=
  ∃ front slot back token, draft.taken edit = some (front.length, token) ∧
    draft.slots = front ++ slot :: back ∧ token.weight ≠ balance slot.token?.toList

section Taken

variable {edit : Edit} {front back : List Slot} {slot : Slot} {token : Token}

theorem regroups_iff (taken : draft.taken edit = some (front.length, token))
    (split : draft.slots = front ++ slot :: back) : draft.Regroups edit ↔
      ¬ (Standing.start.seeAll (resolvedTokens front ++ [token])).Along Standing.Joins
        (resolvedTokens back) := by
  rw [Standing.along_iff_split]
  constructor
  · intro regroups along
    obtain ⟨front', slot', back', token', taken', split', read, found, rest, behind, first,
      known, differs⟩ := regroups
    obtain ⟨rfl, rfl, rfl, rfl⟩ := taken_unique taken split taken' split'
    have joins := along read _ rest behind found rfl
    rw [← Standing.seeAll_append, List.append_assoc, Standing.start_combinator] at joins
    exact differs (joins first known)
  · intro mixes
    simp only [Classical.not_forall] at mixes
    obtain ⟨read, _, rest, behind, mixes⟩ := mixes
    simp only [Standing.Joins, Classical.not_forall] at mixes
    obtain ⟨found, rfl, first, known, differs⟩ := mixes
    rw [← Standing.seeAll_append, List.append_assoc, Standing.start_combinator] at known
    exact ⟨front, slot, back, token, taken, split, read, found, rest, behind, first, known, differs⟩

theorem turnsBracket_iff (taken : draft.taken edit = some (front.length, token))
    (split : draft.slots = front ++ slot :: back) :
    draft.TurnsBracket edit ↔ token.weight ≠ balance slot.token?.toList := by
  constructor
  · intro turns
    obtain ⟨front', slot', back', token', taken', split', differs⟩ := turns
    obtain ⟨rfl, rfl, rfl, rfl⟩ := taken_unique taken split taken' split'
    exact differs
  · exact fun differs => ⟨front, slot, back, token, taken, split, differs⟩

end Taken

variable {edit : Edit}

/-- A combinator that is taken is that of the scope, before the slot or else after it. -/
theorem agrees_of_allows {candidates : TypeSet} {before after : List Token}
    (allowed : (LegalValues.of schema candidates (.between before after)).allows token = true) :
    ∀ wanted ∈ token.combinator?,
      ∀ other ∈ (Standing.start.seeAll before).combinator.or (combinatorAhead 0 after),
        other = wanted := by
  intro wanted isWanted
  cases token with
  | field | operator | value | bracket => cases isWanted
  | combinator found =>
      cases isWanted
      simp only [LegalValues.allows, LegalValues.of] at allowed
      split at allowed
      next =>
        obtain ⟨-, -, same⟩ := LegalValues.contains_legalCombinators.mp allowed
        rw [Standing.start_combinator]
        exact same
      next => cases allowed

/-- Where every scope has one combinator, that stays so exactly if the edit does not bring others
together behind it. -/
theorem Performs.oneCombinator_iff (performs : draft.Performs edit edited)
    (keeps : edit.keepsSlots = true) (one : OneCombinator draft.tokens) :
    OneCombinator edited.tokens ↔ ¬ draft.Regroups edit := by
  rw [FilterQuery.oneCombinator_iff] at one ⊢
  cases performs with
  | @takes _ front back behind slot token taken split legal refits =>
      rw [tokens_split split, Standing.along_append] at one
      have before := one.1
      have joins : (Standing.start.seeAll (resolvedTokens front)).Joins token := by
        rintro found rfl first known
        refine agrees_of_allows legal found rfl first ?_
        rw [Option.mem_def.mp known]
        rfl
      rw [Draft.tokens, taken_tokens refits, Standing.along_append, Standing.along_cons,
        regroups_iff taken split, Classical.not_not, Standing.seeAll_append]
      simp only [before, joins, true_and]
      rfl
  | @rewords front back slot text split isValue quoted =>
      have nothingTaken : ¬ draft.Regroups (.editValue front.length text) := by
        intro regroups
        obtain ⟨_, _, _, _, taken, _⟩ := regroups
        cases taken
      rw [iff_true_right nothingTaken, tokens_split rfl]
      rw [tokens_split split] at one
      cases slot with
      | pending candidates typed => exact one
      | resolved token =>
          cases token with
          | field | operator | combinator | bracket => cases isValue
          | value raw =>
              obtain ⟨before, joins, after⟩ := Standing.along_append.mp one
              exact Standing.along_append.mpr
                ⟨before, Standing.joins_value, after.joins_congr rfl rfl⟩
  | @groups front back split fits =>
      have nothingTaken : ¬ draft.Regroups (.insertGroup front.length) := by
        intro regroups
        obtain ⟨_, _, _, _, taken, _⟩ := regroups
        cases taken
      rw [iff_true_right nothingTaken, Draft.tokens, split, withGroup_tokens]
      rw [Draft.tokens, split, resolvedTokens_append] at one
      obtain ⟨before, after⟩ := Standing.along_append.mp one
      exact Standing.along_append.mpr
        ⟨before, Standing.joins_bracket, Standing.joins_bracket, after.joins_congr rfl rfl⟩
  | removes split unprotected => cases keeps

/-- Combinators come together only where a bracket is turned, as long as brackets are closed only
where they are open. -/
theorem Performs.turnsBracket_of_regroups (performs : draft.Performs edit edited)
    (one : OneCombinator draft.tokens) (closes : ClosesOnlyOpen draft.tokens)
    (regroups : draft.Regroups edit) : draft.TurnsBracket edit := by
  rw [FilterQuery.oneCombinator_iff] at one
  cases performs with
  | @takes _ front back behind slot token taken split legal refits =>
      rw [regroups_iff taken split] at regroups
      rw [turnsBracket_iff taken split]
      intro level
      apply regroups
      rw [tokens_split split] at one closes
      have covers := (Standing.covers_start_iff.mpr closes).seeAll
      have along := (Standing.along_append.mp one).2
      rw [Standing.seeAll_append]
      exact along.exchange covers level (agrees_of_allows legal)
  | rewords | groups | removes =>
      obtain ⟨_, _, _, _, taken, _⟩ := regroups
      cases taken

end Draft

def Fault.isMixed : Fault → Bool
  | .mixedCombinators _ _ => true
  | _ => false

namespace Inspection

variable {state : Inspection} {index : Nat} {slots : List Slot}

theorem any_isMixed_tokenFaults :
    (state.tokenFaults schema token).any Fault.isMixed = true ↔ ¬ state.standing.Joins token := by
  simp only [List.any_eq_true, mem_tokenFaults_iff]
  constructor
  · intro reported joins
    obtain ⟨fault, finds, mixed⟩ := reported
    cases finds with
    | mixed joined differs => exact differs (joins _ rfl _ joined)
    | _ => cases mixed
  · intro refused
    simp only [Standing.Joins, Classical.not_forall] at refused
    obtain ⟨found, same, first, joined, differs⟩ := refused
    cases same
    exact ⟨_, .mixed joined differs, rfl⟩

theorem any_isMixed_faultsFrom :
    ((state.faultsFrom schema index slots).any fun violation => violation.fault.isMixed) = true ↔
      ¬ state.standing.Along Standing.Joins (resolvedTokens slots) := by
  induction slots generalizing state index with
  | nil => simp [faultsFrom]
  | cons slot rest ih =>
      cases slot with
      | pending candidates text =>
          have untaken : ((if text.isEmpty || candidates == .valueOnly then []
              else [⟨index, .unresolvedSlot text⟩] : List Violation).any
                fun violation => violation.fault.isMixed) = false := by
            split <;> rfl
          rw [faultsFrom, List.any_append, untaken, Bool.false_or, ih]
          rfl
      | resolved token =>
          have here := @any_isMixed_tokenFaults schema token state
          rw [faultsFrom, List.any_append, List.any_map, Bool.or_eq_true, ih, standing_see]
          exact (or_congr_left here).trans Classical.not_and_iff_not_or_not.symm

theorem any_isMixed_endViolations :
    (state.endViolations.any fun violation => violation.fault.isMixed) = false := by
  rw [List.any_eq_false]
  intro violation listed
  rcases mem_endViolations_iff.mp listed with
    ⟨_, _, _, rfl⟩ | ⟨_, _, _, rfl⟩ | ⟨_, _, rfl⟩ <;> exact Bool.false_ne_true

end Inspection

theorem exists_isMixed_iff {slots : List Slot} :
    (∃ violation ∈ validate schema slots, violation.fault.isMixed = true) ↔
      ¬ OneCombinator (resolvedTokens slots) := by
  have atEnd := @Inspection.any_isMixed_endViolations (Inspection.start.seeSlots 0 slots)
  rw [oneCombinator_iff, ← Inspection.standing_start,
    ← @Inspection.any_isMixed_faultsFrom schema .start 0 slots, ← List.any_eq_true,
    (validate_perm schema slots).any_eq, List.any_append, atEnd, Bool.or_false]

theorem oneCombinator_nil : OneCombinator [] := by
  intro front found back split
  cases front <;> cases split

/-- Without deletions, every scope has one combinator in all drafts of a run exactly if no edit
brings others together behind it.  Where brackets are closed only where they are open, no edit does
so but one that turns a bracket.  The check reports it whenever a scope has two combinators. -/
theorem Run.oneCombinator_iff_not_regroups {history : List (Draft × Edit)}
    (run : Run Edit.keepsSlots schema history draft) :
    (((∀ step ∈ history, OneCombinator step.1.tokens) ∧ OneCombinator draft.tokens) ↔
      ∀ step ∈ history, ¬ step.1.Regroups step.2) ∧
    (∀ step ∈ history, OneCombinator step.1.tokens → ClosesOnlyOpen step.1.tokens →
      step.1.Regroups step.2 → step.1.TurnsBracket step.2) ∧
    ((∃ violation ∈ draft.violations, violation.fault.isMixed = true) ↔
      ¬ OneCombinator draft.tokens) := by
  refine ⟨?_, ?_, exists_isMixed_iff⟩
  · apply run.holds_throughout_iff (fun draft => OneCombinator draft.tokens) Draft.Regroups
      oneCombinator_nil
    intro draft edit edited may performs
    exact performs.oneCombinator_iff may
  · intro step listed one closes regroups
    obtain ⟨edited, performs⟩ := run.performs_of_mem step listed
    exact performs.turnsBracket_of_regroups one closes regroups

/-- A draft with a group of its own combinator, and an empty group inside. -/
def alternatingDraft : Draft :=
  ⟨.builtin,
    [.resolved (.field "text"), .resolved (.operator "in"), .resolved (.value "\"a\""),
      .resolved (.combinator .or), .resolved (.bracket .opening), .resolved (.field "text"),
      .resolved (.operator "in"), .resolved (.value "\"b\""), .resolved (.combinator .and),
      .resolved (.bracket .opening), .fresh .initial, .resolved (.bracket .closing),
      .resolved (.combinator .and), .fresh TokenType.combinator.follow]⟩

def alternatingEdits : List Edit :=
  [.resolve 0 "text" .field, .resolve 1 "in" .operator, .resolve 2 "a" .value,
    .resolve 3 "OR" .combinator, .resolve 4 "(" .group, .resolve 5 "text" .field,
    .resolve 6 "in" .operator, .resolve 7 "b" .value, .resolve 8 "AND" .combinator,
    .insertGroup 9, .resolve 12 "AND" .combinator]

theorem alternatingDraft_oneCombinator : ∃ history,
    Run Edit.keepsSlots .builtin history alternatingDraft ∧
      ((((∀ step ∈ history, OneCombinator step.1.tokens) ∧
            OneCombinator alternatingDraft.tokens) ↔
          ∀ step ∈ history, ¬ step.1.Regroups step.2) ∧
        (∀ step ∈ history, OneCombinator step.1.tokens → ClosesOnlyOpen step.1.tokens →
          step.1.Regroups step.2 → step.1.TurnsBracket step.2) ∧
        ((∃ violation ∈ alternatingDraft.violations, violation.fault.isMixed = true) ↔
          ¬ OneCombinator alternatingDraft.tokens)) := by
  have edits : alternatingEdits.foldlM Draft.perform (.new .builtin) = .ok alternatingDraft := rfl
  have new : Run Edit.keepsSlots .builtin [] (.new .builtin) := .start
  obtain ⟨history, run⟩ := new.of_foldlM (by decide) edits
  exact ⟨_, run, run.oneCombinator_iff_not_regroups⟩

/-- The draft after a field was taken in place of the inner opening bracket.  The bracket behind it
now ends the outer group, and the combinator behind that stands in the scope of the first one. -/
def regroupedDraft : Draft :=
  ⟨.builtin,
    [.resolved (.field "text"), .resolved (.operator "in"), .resolved (.value "\"a\""),
      .resolved (.combinator .or), .resolved (.bracket .opening), .resolved (.field "text"),
      .resolved (.operator "in"), .resolved (.value "\"b\""), .resolved (.combinator .and),
      .resolved (.field "text"), .fresh TokenType.field.follow, .resolved (.bracket .closing),
      .resolved (.combinator .and), .fresh TokenType.combinator.follow]⟩

theorem regroupedDraft_mixes : ∃ history, Run Edit.keepsSlots .builtin history regroupedDraft ∧
    ¬ OneCombinator regroupedDraft.tokens := by
  have edits : (alternatingEdits ++ [Edit.resolve 9 "text" .field]).foldlM Draft.perform
      (.new .builtin) = .ok regroupedDraft := rfl
  have new : Run Edit.keepsSlots .builtin [] (.new .builtin) := .start
  obtain ⟨history, run⟩ := new.of_foldlM (by decide) edits
  refine ⟨_, run, ?_⟩
  intro one
  have same := one (regroupedDraft.tokens.take 11) .and [] rfl .or rfl
  cases same

end FilterQuery
