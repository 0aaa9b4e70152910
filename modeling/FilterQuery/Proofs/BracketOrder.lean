import FilterQuery.Proofs.Levels
import FilterQuery.Proofs.Selection

namespace FilterQuery

/-! Which edits close a bracket that is not open.

Whether a bracket may be taken is decided from counts: how many are open in front of the slot, and
how many more open than close in all other slots.  So a closing bracket that is taken closes one
itself, and what is wrong in the end is never its own place.  But neither count tells whether the
brackets behind the slot still find their partners.
-/

variable {schema : Schema} {draft edited : Draft} {tokens front back : List Token} {token : Token}

theorem opening_mem_of_balance_pos (opens : 0 < balance tokens) : .bracket .opening ∈ tokens := by
  induction tokens with
  | nil => exact absurd opens (Int.lt_irrefl 0)
  | cons token rest ih =>
      by_cases opening : token = .bracket .opening
      · exact opening ▸ List.mem_cons_self
      have light : token.weight ≤ 0 := by
        cases token with
        | field | operator | value | combinator => exact Int.le_refl 0
        | bracket half =>
            cases half with
            | opening => exact absurd rfl opening
            | closing => decide
      rw [balance] at opens
      exact List.mem_cons_of_mem _ (ih (by omega))

/-- If a token takes the place of another one and then something is closed that is not open, it is
closed behind that place.  All brackets before it are paired. -/
theorem ClosesOnlyOpen.exists_uncovered {old : Option Token}
    (closes : ClosesOnlyOpen (front ++ (old.toList ++ back)))
    (opened : token = .bracket .closing → 0 < balance front ∧ 0 < balance front + balance back)
    (uncovered : ¬ ClosesOnlyOpen (front ++ token :: back)) :
    token.weight < balance old.toList ∧ ∃ read rest,
      back = read ++ .bracket .closing :: rest ∧ IsLevel (front ++ token :: read) ∧
        (token = .bracket .closing → .bracket .opening ∈ rest) := by
  obtain ⟨inner, later, split, level⟩ := not_closesOnlyOpen_iff.mp uncovered
  obtain ⟨inFront, behind⟩ := closesOnlyOpen_append.mp closes
  rcases split_append_cons split with ⟨rest, rfl, -⟩ | ⟨rfl, same, -⟩ | ⟨read, rfl, rfl⟩
  · exact absurd inFront level.not_closesOnlyOpen
  · have nested := (opened same.symm).1
    rw [level.balance_eq] at nested
    exact absurd nested (Int.lt_irrefl 0)
  · have even := level.balance_eq
    rw [balance_append, balance] at even
    refine ⟨?_, read, later, rfl, level, fun isClosing => ?_⟩
    · have earlier := behind (old.toList ++ (read ++ [.bracket .closing])) ⟨later, by simp⟩
      rw [balance_append, balance_append, balance, Token.weight, balance] at earlier
      omega
    · obtain ⟨-, elsewhere⟩ := opened isClosing
      subst isClosing
      rw [balance_append, balance, Token.weight] at elsewhere
      rw [Token.weight] at even
      exact opening_mem_of_balance_pos (by omega)

namespace Draft

/-- Whether an edit takes a token that opens less than its slot did, or closes more, and behind the
slot a closing bracket then comes when all before it are paired.  If the token is a closing bracket
itself, another one opens still further behind. -/
def Uncovers (draft : Draft) (edit : Edit) : Prop :=
  ∃ front slot back token, draft.taken edit = some (front.length, token) ∧
    draft.slots = front ++ slot :: back ∧ token.weight < balance slot.token?.toList ∧
    ∃ read rest, resolvedTokens back = read ++ .bracket .closing :: rest ∧
      IsLevel (resolvedTokens front ++ token :: read) ∧
      (token = .bracket .closing → .bracket .opening ∈ rest)

variable {edit : Edit}

theorem not_uncovers (nothing : draft.taken edit = none) : ¬ draft.Uncovers edit := by
  intro uncovers
  obtain ⟨_, _, _, _, taken, _⟩ := uncovers
  rw [nothing] at taken
  cases taken

/-- Where brackets are closed only if they are open, that stays so exactly if the edit uncovers none
behind its slot. -/
theorem Performs.closesOnlyOpen_iff (performs : draft.Performs edit edited)
    (keeps : edit.keepsSlots = true) (closes : ClosesOnlyOpen draft.tokens) :
    ClosesOnlyOpen edited.tokens ↔ ¬ draft.Uncovers edit := by
  cases performs with
  | @takes _ front back behind slot token taken split legal refits =>
      rw [tokens_split split] at closes
      rw [Draft.tokens, taken_tokens refits]
      constructor
      · intro kept uncovers
        obtain ⟨front', slot', back', token', taken', split', -, read, rest, later, level, -⟩ :=
          uncovers
        obtain ⟨rfl, rfl, rfl, rfl⟩ := taken_unique taken split taken' split'
        rw [later, ← List.cons_append, ← List.append_assoc] at kept
        exact level.not_closesOnlyOpen kept
      · intro covered
        refine Classical.byContradiction fun uncovered => covered ?_
        have opened : token = .bracket .closing → 0 < balance (resolvedTokens front) ∧
            0 < balance (resolvedTokens front) + balance (resolvedTokens back) := by
          intro isClosing
          exact LegalValues.opened_of_allows (isClosing ▸ legal)
        exact ⟨front, slot, back, token, taken, split, closes.exists_uncovered opened uncovered⟩
  | @rewords front back slot text split isValue quoted =>
      have after : (⟨draft.schema, front ++ withText text slot :: back⟩ : Draft).tokens =
          resolvedTokens front ++ ((withText text slot).token?.toList ++ resolvedTokens back) :=
        tokens_split rfl
      rw [tokens_split split] at closes
      rw [after, iff_true_right (not_uncovers rfl)]
      cases slot with
      | pending candidates typed => exact closes
      | resolved token =>
          cases token with
          | field | operator | combinator | bracket => cases isValue
          | value raw =>
              have before : ClosesOnlyOpen
                  (resolvedTokens front ++ .value raw :: resolvedTokens back) := closes
              obtain ⟨inFront, behind⟩ := closesOnlyOpen_cons.mp before
              exact closesOnlyOpen_cons.mpr ⟨inFront, behind⟩
  | @groups front back split fits =>
      have after : (⟨draft.schema, withGroup draft.slots front.length⟩ : Draft).tokens =
          resolvedTokens front ++
            .bracket .opening :: .bracket .closing :: resolvedTokens back := by
        rw [Draft.tokens, split, withGroup_tokens]
      rw [Draft.tokens, split, resolvedTokens_append] at closes
      rw [after, iff_true_right (not_uncovers rfl)]
      exact closes.group
  | removes split unprotected => cases keeps

/-- A closing bracket that is taken has a partner at its own place, and does not leave more brackets
closed than opened at the end. -/
theorem Performs.opened {front back : List Slot} {slot : Slot} (performs : draft.Performs edit edited)
    (taken : draft.taken edit = some (front.length, .bracket .closing))
    (split : draft.slots = front ++ slot :: back) :
    0 ≤ balance (resolvedTokens front ++ [.bracket .closing]) ∧
      0 ≤ balance (resolvedTokens front ++ .bracket .closing :: resolvedTokens back) := by
  cases performs with
  | takes taken' split' legal refits =>
      obtain ⟨rfl, rfl, rfl, rfl⟩ := taken_unique taken split taken' split'
      obtain ⟨nested, elsewhere⟩ := LegalValues.opened_of_allows legal
      rw [balance_append, balance_append]
      simp only [balance, Token.weight]
      omega
  | rewords | groups | removes => cases taken

end Draft

theorem Run.closesOnlyOpen_of_selects {history : List (Draft × Edit)}
    (run : Run Edit.selects schema history draft) : ClosesOnlyOpen draft.tokens := by
  obtain ⟨tokens, row⟩ := run.isRow
  rw [row.tokens_eq, closesOnlyOpen_iff]
  intro front begins
  obtain ⟨back, rfl⟩ := begins
  have viable := (Standing.viable_append.mp (Standing.Typable.viable row.typable)).1
  rw [← Standing.start_depth viable]
  exact Int.natCast_nonneg _

/-- Without deletions, brackets are closed only where they are open in all drafts of a run exactly
if no edit of the run uncovers a bracket behind its slot.  A closing bracket that is taken is never
itself the one that closes nothing, neither at its own place nor by what is left at the end.  If no
group is put in, nothing goes wrong. -/
theorem Run.closesOnlyOpen_iff_not_uncovers {history : List (Draft × Edit)}
    (run : Run Edit.keepsSlots schema history draft) :
    (((∀ step ∈ history, ClosesOnlyOpen step.1.tokens) ∧ ClosesOnlyOpen draft.tokens) ↔
      ∀ step ∈ history, ¬ step.1.Uncovers step.2) ∧
    (∀ step ∈ history, ∀ front slot back,
      step.1.taken step.2 = some (front.length, .bracket .closing) →
      step.1.slots = front ++ slot :: back →
      0 ≤ balance (resolvedTokens front ++ [.bracket .closing]) ∧
        0 ≤ balance (resolvedTokens front ++ .bracket .closing :: resolvedTokens back)) ∧
    ((∀ step ∈ history, step.2.selects = true) → ClosesOnlyOpen draft.tokens) := by
  refine ⟨?_, ?_, fun selects => (run.restrict selects).closesOnlyOpen_of_selects⟩
  · apply run.holds_throughout_iff (fun draft => ClosesOnlyOpen draft.tokens) Draft.Uncovers
      closesOnlyOpen_nil
    intro draft edit edited may performs
    exact performs.closesOnlyOpen_iff may
  · intro step listed front slot back taken split
    obtain ⟨edited, performs⟩ := run.performs_of_mem step listed
    exact performs.opened taken split

/-- A draft with an empty group, of which a new group is begun. -/
def groupedDraft : Draft :=
  ⟨.builtin,
    [.resolved (.bracket .opening), .fresh .initial, .resolved (.bracket .closing),
      .resolved (.combinator .and), .resolved (.bracket .opening), .fresh TokenType.group.follow]⟩

theorem groupedDraft_closesOnlyOpen : ∃ history,
    Run Edit.keepsSlots .builtin history groupedDraft ∧
      (((∀ step ∈ history, ClosesOnlyOpen step.1.tokens) ∧ ClosesOnlyOpen groupedDraft.tokens) ↔
        ∀ step ∈ history, ¬ step.1.Uncovers step.2) ∧
      (∀ step ∈ history, ∀ front slot back,
        step.1.taken step.2 = some (front.length, .bracket .closing) →
        step.1.slots = front ++ slot :: back →
        0 ≤ balance (resolvedTokens front ++ [.bracket .closing]) ∧
          0 ≤ balance (resolvedTokens front ++ .bracket .closing :: resolvedTokens back)) ∧
      ((∀ step ∈ history, step.2.selects = true) → ClosesOnlyOpen groupedDraft.tokens) := by
  have edits : [Edit.insertGroup 0, .resolve 3 "AND" .combinator, .resolve 4 "(" .group].foldlM
      Draft.perform (.new .builtin) = .ok groupedDraft := rfl
  have new : Run Edit.keepsSlots .builtin [] (.new .builtin) := .start
  obtain ⟨history, run⟩ := new.of_foldlM (by decide) edits
  exact ⟨_, run, run.closesOnlyOpen_iff_not_uncovers⟩

/-- The draft after a field was taken in place of the opening bracket of an empty group. -/
def unopenedDraft : Draft :=
  ⟨.builtin,
    [.resolved (.field "text"), .fresh TokenType.field.follow, .resolved (.bracket .closing),
      .fresh TokenType.group.follow]⟩

theorem unopenedDraft_closes : ∃ history, Run Edit.keepsSlots .builtin history unopenedDraft ∧
    ¬ ClosesOnlyOpen unopenedDraft.tokens := by
  have edits : [Edit.insertGroup 0, .resolve 0 "text" .field].foldlM Draft.perform
      (.new .builtin) = .ok unopenedDraft := rfl
  have new : Run Edit.keepsSlots .builtin [] (.new .builtin) := .start
  obtain ⟨history, run⟩ := new.of_foldlM (by decide) edits
  refine ⟨_, run, ?_⟩
  intro closes
  have whole := closes unopenedDraft.tokens (List.prefix_refl _)
  exact absurd whole (by decide)

end FilterQuery
