import FilterQuery.Proofs.Neighbours
import FilterQuery.Proofs.QuotedValues
import FilterQuery.Proofs.Selection

namespace FilterQuery

variable {schema : Schema} {draft : Draft} {tokens before after : List Token} {token : Token}
  {front back : List Slot} {index : Nat}

/-- In viable tokens the next combinator of a scope is the one that the scope has. -/
theorem Standing.Viable.eq_of_combinatorAhead {previous : Option Token}
    {inner outer : List (Option Combinator)} {found : Combinator}
    (viable : (inside previous inner (some found) outer).Viable schema tokens) :
    ∀ later ∈ combinatorAhead inner.length tokens, later = found := by
  induction tokens generalizing previous inner with
  | nil => exact nofun
  | cons token rest ih =>
      obtain ⟨admits, others⟩ := viable
      by_cases stays : Stays inner token
      · obtain ⟨deeper, sees, ahead⟩ := stays.see
        rw [sees] at others
        rw [ahead]
        exact ih others
      · obtain ⟨rfl, ends⟩ := Classical.not_imp.mp stays
        match token, ends, admits with
        | .field _, ends, _ | .operator _, ends, _ | .value _, ends, _
        | .bracket .opening, ends, _ =>
            exact absurd ⟨(nomatch ·), fun _ same => nomatch same⟩ ends
        | .combinator next, _, ⟨_, agrees⟩ =>
            rintro later ⟨⟩
            exact (agrees found rfl).symm
        | .bracket .closing, _, _ => exact nofun

theorem fitsAround_of_viable (viable : Standing.start.Viable schema (before ++ token :: after)) :
    FitsAround before after token := by
  obtain ⟨inFront, admits, behind⟩ := Standing.viable_append.mp viable
  match token, admits, behind, viable with
  | .field _, _, _, _ | .operator _, _, _, _ | .value _, _, _, _
  | .bracket .opening, _, _, _ => trivial
  | .combinator found, ⟨_, agrees⟩, behind, _ =>
      intro other listed
      cases known : (Standing.start.seeAll before).combinator with
      | some first =>
          rw [known] at listed
          cases listed
          exact agrees _ known
      | none =>
          rw [known, Option.none_or] at listed
          rw [Standing.see, known] at behind
          have inScope : (Standing.inside (some (.combinator found)) [] (some found)
            (Standing.start.seeAll before).outer).Viable schema after := behind
          exact inScope.eq_of_combinatorAhead other listed
  | .bracket .closing, _, _, viable =>
      have depth := Standing.start_depth viable
      rw [balance_append, balance, Token.weight] at depth
      rw [FitsAround]
      omega

/-- Every one of some typable tokens may be taken where it stands. -/
theorem between_allows_self (typable : Standing.start.Typable schema (before ++ token :: after)) :
    (LegalValues.between schema before after).allows token = true := by
  obtain ⟨inFront, offers, -⟩ := Standing.along_append.mp typable
  have viable : Standing.start.Viable schema before := Standing.Typable.viable inFront
  exact (between_allows_iff viable).mpr ⟨offers, fitsAround_of_viable typable.viable⟩

theorem Slot.reseed_same (candidates : TypeSet) (text : String) :
    (Slot.pending candidates text).reseed candidates = .pending candidates text :=
  if_pos (beq_self_eq_true _)

theorem IsRow.refit_self (row : IsRow draft tokens)
    (split : draft.slots = front ++ .resolved token :: back) :
    refit draft.schema (resolvedTokens front) token false back = some back := by
  obtain ⟨⟨last, awaits, slots⟩, typable⟩ := row
  rw [slots] at split
  rcases split_row split with ⟨-, rfl, -⟩ | ⟨before, old, after, rfl, rfl, same, rfl⟩
  · obtain ⟨_, isPending, -⟩ := awaits
    cases isPending
  · cases same
    cases after with
    | nil =>
        -- The candidates of the pending slot are already those that follow the token.
        rw [typesBehind_concat] at awaits
        obtain ⟨text, rfl, -⟩ := awaits
        exact congrArg (fun slot => some [slot]) (Slot.reseed_same _ text)
    | cons next rest =>
        have typable : Standing.start.Typable draft.schema
            ((before ++ [token]) ++ next :: rest) := by
          rwa [List.append_assoc]
        have allowed := between_allows_self typable
        have fits := Bool.and_eq_true_iff.mpr ⟨LegalValues.follows_of_allows allowed, allowed⟩
        rw [List.map_cons, List.cons_append, refit, awaits.resolvedTokens, resolvedTokens_map]
        exact if_pos fits

theorem IsRow.resolve_self (row : IsRow draft tokens)
    (split : draft.slots = front ++ .resolved token :: back)
    (quoted : ∀ raw, token = .value raw → Text.isQuoted raw = true) :
    draft.resolve front.length token.text token.type = .ok draft := by
  have allowed : (LegalValues.between draft.schema (resolvedTokens front)
      (resolvedTokens back)).allows token = true := by
    have typable := row.typable
    rw [← row.tokens_eq, Draft.tokens_split split] at typable
    exact between_allows_self typable
  have called : token.IsCalled token.type token.text := by
    unfold Token.IsCalled
    cases token with
    | field | operator | combinator | bracket => exact ⟨rfl, rfl⟩
    | value raw => exact congrArg Token.value (Text.quote_of_isQuoted (quoted raw rfl)).symm
  have chosen := (Draft.choose_ok_iff_isCalled (Draft.legalValues_resolved split)).mpr
    ⟨called, allowed⟩
  have same : (⟨draft.schema, front ++ .resolved token :: back⟩ : Draft) = draft := by
    rw [← split]
  simp only [Draft.resolve, chosen, Draft.place_eq split, Slot.isPending, row.refit_self split,
    Option.map_some, same]

/-- However tokens were taken and values replaced, taking the token of a slot once more succeeds and
leaves the draft as it is, with what was typed into its pending slot. -/
theorem Run.resolve_held {history : List (Draft × Edit)}
    (run : Run Edit.selects schema history draft)
    (held : draft.slots[index]? = some (.resolved token)) :
    draft.resolve index token.text token.type = .ok draft := by
  obtain ⟨tokens, row⟩ := run.isRow
  obtain ⟨front, back, split, rfl⟩ := split_of_getElem? held
  refine row.resolve_self split ?_
  rintro raw rfl
  exact Text.isQuoted_iff.mpr (run.keepsQuotes _ (List.mem_of_getElem? held))

/-- A draft with a combinator in front of a group that is open, and a value that is being typed. -/
def typingDraft : Draft :=
  ⟨.builtin,
    [.resolved (.field "text"), .resolved (.operator "in"), .resolved (.value "'a'"),
      .resolved (.combinator .or), .resolved (.bracket .opening), .resolved (.bracket .closing),
      .resolved (.combinator .or), .resolved (.field "classifier"), .resolved (.operator "in"),
      .pending .valueOnly "'x'"]⟩

/-- The combinator has another one in its scope, the bracket ends the only group, the value has
single quotes, and the operator stands in front of what is being typed. -/
theorem typingDraft_resolve_held : ∃ history, Run Edit.selects .builtin history typingDraft ∧
    typingDraft.resolve 3 "OR" .combinator = .ok typingDraft ∧
    typingDraft.resolve 5 ")" .group = .ok typingDraft ∧
    typingDraft.resolve 2 "'a'" .value = .ok typingDraft ∧
    typingDraft.resolve 8 "in" .operator = .ok typingDraft := by
  have edits : [Edit.resolve 0 "text" .field, .resolve 1 "in" .operator, .resolve 2 "'a'" .value,
      .resolve 3 "OR" .combinator, .resolve 4 "(" .group, .resolve 5 ")" .group,
      .resolve 6 "OR" .combinator, .resolve 7 "classifier" .field, .resolve 8 "in" .operator,
      .editValue 9 "'x'"].foldlM Draft.perform (.new .builtin) = .ok typingDraft := rfl
  have new : Run Edit.selects .builtin [] (.new .builtin) := .start
  obtain ⟨history, run⟩ := new.of_foldlM (by decide) edits
  have joins : typingDraft.slots[3]? = some (.resolved (.combinator .or)) := rfl
  have ends : typingDraft.slots[5]? = some (.resolved (.bracket .closing)) := rfl
  have valued : typingDraft.slots[2]? = some (.resolved (.value "'a'")) := rfl
  have compares : typingDraft.slots[8]? = some (.resolved (.operator "in")) := rfl
  exact ⟨_, run, run.resolve_held joins, run.resolve_held ends, run.resolve_held valued,
    run.resolve_held compares⟩

end FilterQuery
