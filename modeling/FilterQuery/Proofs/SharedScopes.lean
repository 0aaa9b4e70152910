import FilterQuery.Proofs.CombinatorScopes
import FilterQuery.Proofs.Members

namespace FilterQuery

variable {schema : Schema} {phrase : Phrase} {tokens rest before after : List Token}
  {standing : Standing} {found other wanted : Combinator}

/-- The scopes around are left alone, and the combinator is the first one of the scope. -/
theorem IsLevel.seeAll (level : IsLevel tokens) :
    (standing.seeAll tokens).outer = standing.outer ∧
      (standing.seeAll tokens).combinator =
        standing.combinator.or (combinatorAhead 0 tokens) := by
  induction level generalizing standing with
  | nil => exact ⟨rfl, (Option.or_none).symm⟩
  | @cons token tokens flat later ih =>
      have ahead : combinatorAhead 0 (token :: tokens) =
          token.combinator?.or (combinatorAhead 0 tokens) := by
        cases token with
        | field | operator | value | combinator => rfl
        | bracket half => cases half <;> cases flat
      obtain ⟨outer, combinator⟩ := @ih (standing.see token)
      rw [Standing.seeAll_cons, outer, combinator, ahead, Standing.see_level flat, Option.or_assoc]
      exact ⟨rfl, rfl⟩
  | @group inner tokens inside later insideIH laterIH =>
      have ahead : combinatorAhead 0 (.bracket .opening :: (inner ++ .bracket .closing :: tokens)) =
          combinatorAhead 0 tokens := by
        rw [combinatorAhead, inside.combinatorAhead_inside]
        rfl
      have nested : ((standing.see (.bracket .opening)).seeAll inner).outer =
          standing.combinator :: standing.outer := insideIH.1
      rw [Standing.seeAll_cons, Standing.seeAll_append, Standing.seeAll_cons,
        Standing.see_closing nested, ahead]
      exact laterIH

/-- Whether a combinator stands in the scope of the place between some tokens. -/
def SharesScope (before after : List Token) (other : Combinator) : Prop :=
  (∃ front read, before = front ++ .combinator other :: read ∧ IsLevel read) ∨
    ∃ read back, after = read ++ .combinator other :: back ∧ IsLevel read

def scopeCombinator (before after : List Token) : Option Combinator :=
  (Standing.start.seeAll before).combinator.or (combinatorAhead 0 after)

/-- Every combinator of the scope is the one that stands in the place, and one of them is found. -/
theorem SharesScope.eq_found (shares : SharesScope before after other)
    (viable : Standing.start.Viable schema (before ++ .combinator found :: after)) :
    other = found ∧ scopeCombinator before after ≠ none := by
  obtain ⟨viableFront, ⟨-, agrees⟩, viableBack⟩ := Standing.viable_append.mp viable
  rcases shares with ⟨front, read, rfl, level⟩ | ⟨read, back, rfl, level⟩
  · obtain ⟨-, ⟨-, joins⟩, -⟩ := Standing.viable_append.mp viableFront
    have joined : (Standing.start.seeAll front).combinator.or (some other) = some other :=
      Agrees.or_self joins
    have known : (Standing.start.seeAll (front ++ .combinator other :: read)).combinator =
        some other := by
      rw [Standing.seeAll_append, Standing.seeAll_cons, level.seeAll.2, Standing.see, joined,
        Option.some_or]
    refine ⟨agrees other known, ?_⟩
    rw [scopeCombinator, known, Option.some_or]
    exact Option.some_ne_none other
  · obtain ⟨-, ⟨-, joins⟩, -⟩ := Standing.viable_append.mp viableBack
    have joined : (Standing.start.seeAll before).combinator.or (some found) = some found :=
      Agrees.or_self agrees
    have same : found = other := by
      refine joins found ?_
      rw [level.seeAll.2, Standing.see, joined]
      rfl
    refine ⟨same.symm, ?_⟩
    have ahead : combinatorAhead 0 (.combinator other :: back) = some other := rfl
    rw [scopeCombinator, level.combinatorAhead_append, ahead]
    simp

theorem Derives.single_or_joined (derives : Derives schema (.members found) tokens) :
    (Derives schema .member tokens ∧ combinatorAhead 0 tokens = none) ∨
      combinatorAhead 0 tokens = some found ∧
        (∃ front read, tokens = front ++ .combinator found :: read ∧ IsLevel read) ∧
        ∃ read back, tokens = read ++ .combinator found :: back ∧ IsLevel read := by
  cases derives with
  | single only => exact .inl ⟨only, only.combinatorAhead_leaves⟩
  | join front member =>
      exact .inr ⟨front.combinatorAhead_join, ⟨_, _, rfl, member.isLevel⟩,
        _, _, rfl, front.isLevel⟩

/-- What stands beside a combinator in its own scope, and what is found there. -/
theorem Derives.beside (derives : Derives schema phrase (before ++ .combinator found :: after)) :
    ∃ inner rest, Derives schema (.members found) inner ∧ Derives schema (.members found) rest ∧
      inner <:+ before ∧ rest <+: after ∧
      scopeCombinator before after = (combinatorAhead 0 inner).or (combinatorAhead 0 rest) := by
  rcases derives.locate_combinator rfl with ⟨-, left, right⟩ |
    ⟨front, inner, rest, back, rfl, rfl, -, left, right⟩
  · refine ⟨before, after, left, right, List.suffix_refl _, List.prefix_refl _, ?_⟩
    rw [scopeCombinator, left.isLevel.seeAll.2]
    rfl
  · refine ⟨inner, rest, left, right, ⟨front ++ [.bracket .opening], List.append_assoc _ _ _⟩,
      List.prefix_append _ _, ?_⟩
    have ends : combinatorAhead 0 (.bracket .closing :: back) = none := rfl
    rw [scopeCombinator, Standing.seeAll_append, Standing.seeAll_cons, left.isLevel.seeAll.2,
      right.isLevel.combinatorAhead_append, ends, Option.or_none]
    rfl

theorem sharesScope_of_ends {inner : List Token} (ends : inner <:+ before)
    (joined : ∃ front read, inner = front ++ .combinator other :: read ∧ IsLevel read) :
    SharesScope before after other := by
  obtain ⟨outer, rfl⟩ := ends
  obtain ⟨front, read, rfl, level⟩ := joined
  exact .inl ⟨outer ++ front, read, (List.append_assoc _ _ _).symm, level⟩

theorem sharesScope_of_starts (starts : rest <+: after)
    (joined : ∃ read back, rest = read ++ .combinator other :: back ∧ IsLevel read) :
    SharesScope before after other := by
  obtain ⟨outer, rfl⟩ := starts
  obtain ⟨read, back, rfl, level⟩ := joined
  exact .inr ⟨read, back ++ outer, List.append_assoc _ _ _, level⟩

/-- If a combinator has no other one in its scope, a single member stands on either side. -/
theorem Derives.alone_or_joined {inner : List Token} (left : Derives schema (.members found) inner)
    (right : Derives schema (.members found) rest) (ends : inner <:+ before)
    (starts : rest <+: after) :
    (Derives schema .member inner ∧ Derives schema .member rest ∧
      (combinatorAhead 0 inner).or (combinatorAhead 0 rest) = none) ∨
    SharesScope before after found ∧
      (combinatorAhead 0 inner).or (combinatorAhead 0 rest) = some found := by
  rcases left.single_or_joined with ⟨single, nothing⟩ | ⟨known, joined, -⟩
  · rcases right.single_or_joined with ⟨other, nothingElse⟩ | ⟨known, -, joined⟩
    · exact .inl ⟨single, other, by rw [nothing, nothingElse]; rfl⟩
    · exact .inr ⟨sharesScope_of_starts starts joined, by rw [nothing, known]; rfl⟩
  · exact .inr ⟨sharesScope_of_ends ends joined, by rw [known]; rfl⟩

theorem Derives.single_or_eq {inner : List Token} (left : Derives schema (.members found) inner)
    (right : Derives schema (.members found) rest) (ends : inner <:+ before)
    (starts : rest <+: after) (agrees : ∀ other, SharesScope before after other → other = wanted) :
    (Derives schema .member inner ∧ Derives schema .member rest) ∨ found = wanted := by
  rcases left.alone_or_joined right ends starts with ⟨first, last, -⟩ | ⟨shares, -⟩
  · exact .inl ⟨first, last⟩
  · exact .inr (agrees found shares)

/-- The combinators of the scope are compared by looking at the one that is found. -/
theorem Derives.agrees_iff (derives : Derives schema phrase (before ++ .combinator found :: after))
    (viable : Standing.start.Viable schema (before ++ .combinator found :: after)) :
    Agrees (scopeCombinator before after) wanted ↔
      ∀ other, SharesScope before after other → other = wanted := by
  obtain ⟨inner, rest, left, right, ends, starts, scope⟩ := derives.beside
  rcases left.alone_or_joined right ends starts with ⟨-, -, nothing⟩ | ⟨shares, known⟩
  · rw [← scope] at nothing
    rw [nothing]
    refine iff_of_true agrees_none fun other shares => ?_
    exact absurd nothing (shares.eq_found viable).2
  · rw [scope, known]
    constructor
    · intro agrees other shares
      exact (shares.eq_found viable).1.trans (agrees found rfl)
    · intro same first isFirst
      cases isFirst
      exact same found shares

end FilterQuery
