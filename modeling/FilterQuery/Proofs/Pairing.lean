import FilterQuery.Proofs.Levels
import FilterQuery.RuleGroup.Builder

namespace FilterQuery

variable {tokens rest front back : List Token} {token : Token}

namespace RuleGroup

variable {current : OpenGroup} {outer : List OpenGroup}

theorem build_flat (flat : token.weight = 0) :
    build current outer (token :: rest) = build (current.see token) outer rest := by
  cases token with
  | field | operator | value | combinator => rfl
  | bracket half => cases half <;> cases flat

theorem build_closings (current : OpenGroup) (outer : List OpenGroup) (count : Nat) :
    (build current outer (List.replicate count (.bracket .closing))).1 =
      closeAll current outer := by
  induction count generalizing current outer with
  | zero => rfl
  | succ count ih =>
      cases outer with
      | nil => rfl
      | cons parent outer => exact ih (parent.addGroup current.finish) outer

/-- Closing brackets behind the last token end what would end there without them. -/
theorem build_append_closings (current : OpenGroup) (outer : List OpenGroup) (tokens : List Token)
    (count : Nat) :
    (build current outer (tokens ++ List.replicate count (.bracket .closing))).1 =
      (build current outer tokens).1 := by
  induction tokens generalizing current outer with
  | nil => exact build_closings current outer count
  | cons token rest ih =>
      rw [List.cons_append]
      cases token with
      | field | operator | value | combinator => exact ih _ outer
      | bracket half =>
          cases half with
          | opening => exact ih .blank (current :: outer)
          | closing =>
              cases outer with
              | nil => rfl
              | cons parent outer => exact ih (parent.addGroup current.finish) outer

/-- Tokens whose brackets are all paired add to the open group and leave those around it alone. -/
theorem build_level (level : IsLevel tokens) (current : OpenGroup) : ∃ grown : OpenGroup,
    ∀ outer rest, build current outer (tokens ++ rest) = build grown outer rest := by
  induction level generalizing current with
  | nil => exact ⟨current, fun _ _ => rfl⟩
  | @cons token tokens flat later ih =>
      obtain ⟨grown, same⟩ := ih (current.see token)
      refine ⟨grown, fun outer rest => ?_⟩
      rw [List.cons_append, build_flat flat, same]
  | @group inner tokens inside later insideIH laterIH =>
      obtain ⟨filled, sameInside⟩ := insideIH .blank
      obtain ⟨grown, same⟩ := laterIH (current.addGroup filled.finish)
      refine ⟨grown, fun outer rest => ?_⟩
      rw [List.cons_append, List.append_assoc, build, sameInside, List.cons_append, build, same]

/-- Closing brackets at the end never change the group that tokens form.  If every bracket has its
partner, one more closing bracket ends the query, and what stands behind it is left unread. -/
theorem ofTokens_recovers (tokens : List Token) :
    (∀ count, ofTokens (tokens ++ List.replicate count (.bracket .closing)) = ofTokens tokens) ∧
    (IsLevel tokens → ∀ rest,
      ofTokens (tokens ++ .bracket .closing :: rest) = ofTokens tokens ∧
      (read (tokens ++ .bracket .closing :: rest)).2 = rest) := by
  refine ⟨build_append_closings .blank [] tokens, fun level rest => ?_⟩
  obtain ⟨grown, same⟩ := build_level level .blank
  have whole : ofTokens tokens = grown.finish := by
    have alone := same [] []
    rw [List.append_nil] at alone
    rw [ofTokens, read, alone]
    rfl
  rw [whole, ofTokens, read, same]
  exact ⟨rfl, rfl⟩

/-- A bracketed rule and a combinator behind it. -/
def pairedTokens : List Token :=
  [.bracket .opening, .field "text", .operator "in", .value "a", .bracket .closing,
    .combinator .or]

theorem pairedTokens_recovers : IsLevel pairedTokens ∧
    ofTokens (pairedTokens ++ [.bracket .closing, .combinator .and, .bracket .closing]) =
      ofTokens pairedTokens ∧
    (ofTokens pairedTokens).leaves = [⟨"text", "in", "a"⟩] ∧
    (read (pairedTokens ++ [.bracket .closing, .combinator .and, .bracket .closing])).2 =
      [.combinator .and, .bracket .closing] := by
  have inside : IsLevel [.field "text", .operator "in", .value "a"] :=
    .cons rfl (.cons rfl (.cons rfl .nil))
  have level : IsLevel pairedTokens := .group inside (.cons rfl .nil)
  obtain ⟨same, unread⟩ := (ofTokens_recovers pairedTokens).2 level
    [.combinator .and, .bracket .closing]
  exact ⟨level, same, by decide +kernel, unread⟩

end RuleGroup
end FilterQuery
