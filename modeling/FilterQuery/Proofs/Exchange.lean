import FilterQuery.Proofs.Legality

namespace FilterQuery.Standing

variable {schema : Schema} {standing : Standing} {token other next : Token} {rest : List Token}
  {previous : Option Token} {inner outer : List (Option Combinator)} {found chosen : Combinator}

/-- The standing in a scope, or in some more scopes inside it. -/
def inside (previous : Option Token) (inner : List (Option Combinator)) (found : Option Combinator)
    (outer : List (Option Combinator)) : Standing :=
  match inner with
  | [] => ⟨previous, found, outer⟩
  | combinator :: inner => ⟨previous, combinator, inner ++ found :: outer⟩

/-- Whether a token neither ends the scope nor bears on its combinator. -/
def Stays (inner : List (Option Combinator)) (token : Token) : Prop :=
  inner = [] → token ≠ .bracket .closing ∧ ∀ combinator, token ≠ .combinator combinator

theorem Stays.see (stays : Stays inner token) : ∃ deeper : List (Option Combinator),
    (∀ previous found, (inside previous inner found outer).see token =
        inside (some token) deeper found outer) ∧
      ∀ rest, combinatorAhead inner.length (token :: rest) =
        combinatorAhead deeper.length rest := by
  cases token with
  | field name | operator name | value name =>
      refine ⟨inner, ?_, fun _ => rfl⟩
      cases inner <;> exact fun _ _ => rfl
  | combinator next =>
      cases inner with
      | nil => exact absurd rfl ((stays rfl).2 next)
      | cons combinator inner =>
          exact ⟨combinator.or (some next) :: inner, fun _ _ => rfl, fun _ => rfl⟩
  | bracket half =>
      cases half with
      | opening =>
          refine ⟨none :: inner, ?_, fun _ => rfl⟩
          cases inner <;> exact fun _ _ => rfl
      | closing =>
          cases inner with
          | nil => exact absurd rfl (stays rfl).1
          | cons combinator inner =>
              refine ⟨inner, ?_, fun _ => rfl⟩
              cases inner <;> exact fun _ _ => rfl

theorem Stays.offers (stays : Stays inner token)
    (offers : (inside previous inner (some found) outer).Offers schema token) :
    (inside previous inner (some chosen) outer).Offers schema token := by
  cases inner with
  | nil =>
      match token, stays rfl with
      | .field _, _ | .operator _, _ | .value _, _ | .bracket .opening, _ => exact offers
      | .combinator next, ⟨_, other⟩ => exact absurd rfl (other next)
      | .bracket .closing, ⟨other, _⟩ => exact absurd rfl other
  | cons combinator inner =>
      match token, offers with
      | .field _, offers | .operator _, offers | .value _, offers | .combinator _, offers
      | .bracket .opening, offers => exact offers
      | .bracket .closing, ⟨⟨ends, _⟩, unopened⟩ =>
          refine ⟨⟨ends, ?_⟩, unopened⟩
          exact List.append_ne_nil_of_right_ne_nil _ (List.cons_ne_nil _ _)

/-- The combinator of a scope is free if no further combinator of it comes. -/
theorem Typable.recombine {tokens : List Token}
    (typable : (inside previous inner (some found) outer).Typable schema tokens)
    (agrees : ∀ later ∈ combinatorAhead inner.length tokens, later = chosen) :
    (inside previous inner (some chosen) outer).Typable schema tokens := by
  induction tokens generalizing previous inner with
  | nil => exact along_nil
  | cons token rest ih =>
      obtain ⟨offered, later⟩ := typable
      by_cases stays : Stays inner token
      · obtain ⟨deeper, sees, ahead⟩ := stays.see
        rw [sees] at later
        rw [ahead] at agrees
        refine ⟨stays.offers offered, ?_⟩
        rw [sees]
        exact ih later agrees
      · obtain ⟨rfl, ends⟩ := Classical.not_imp.mp stays
        match token, ends, offered with
        | .field _, ends, _ | .operator _, ends, _ | .value _, ends, _
        | .bracket .opening, ends, _ =>
            exact absurd ⟨(nomatch ·), fun _ same => nomatch same⟩ ends
        | .combinator next, _, offered =>
            -- Both combinators are the next one of the scope.
            have known : found = next := offered.1.2 found rfl
            have wanted : next = chosen := agrees next rfl
            subst known
            subst wanted
            exact ⟨offered, later⟩
        | .bracket .closing, _, offered =>
            -- Outside the scope its combinator is not looked at.
            refine ⟨offered, ?_⟩
            cases outer with
            | nil => exact absurd rfl offered.1.2
            | cons combinator outer => exact later

/-- The kinds of tokens among which a standing tells what may come next. -/
inductive Alike : Token → Token → Prop
  | same {token : Token} : Alike token token
  | fields {name other : String} : Alike (.field name) (.field other)
  | operators {name other : String} : Alike (.operator name) (.operator other)
  | values {raw other : String} : Alike (.value raw) (.value other)
  | combinators {found other : Combinator} : Alike (.combinator found) (.combinator other)

/-- Whether a token may be taken next as far as the nearest one tells. -/
def fits (previous : Option Token) : Token → Bool
  | .field _ => startsMember previous
  | .operator _ => previous.any (·.type == .field)
  | .value _ => previous.any (·.type == .operator)
  | .combinator _ => endsMember previous
  | .bracket .opening => startsMember previous && previous != some (.bracket .opening)
  | .bracket .closing => previous == some (.bracket .opening) || endsMember previous

theorem Offers.fits (offers : standing.Offers schema token) :
    fits standing.previous token = true := by
  match token, offers with
  | .field _, ⟨⟨starts, _⟩, _⟩ => exact starts
  | .operator _, ⟨⟨_, _, previous, _⟩, _⟩ =>
      rw [previous]
      rfl
  | .value _, ⟨⟨_, previous⟩, _⟩ =>
      rw [previous]
      rfl
  | .combinator _, ⟨⟨ends, _⟩, _⟩ => exact ends
  | .bracket .opening, ⟨starts, unopened⟩ => simpa [Standing.fits] using ⟨starts, unopened rfl⟩
  | .bracket .closing, ⟨⟨ends, _⟩, _⟩ => simpa [Standing.fits] using ends

/-- Two tokens that fit between the same neighbours are of one kind. -/
theorem alike_of_fits (fitsToken : fits previous token = true)
    (fitsOther : fits previous other = true) (afterToken : fits (some token) next = true)
    (afterOther : fits (some other) next = true) : Alike token other := by
  rcases previous with _ | (_ | _ | _ | _ | (_ | _)) <;>
    rcases token with _ | _ | _ | _ | (_ | _) <;> cases fitsToken <;>
    rcases other with _ | _ | _ | _ | (_ | _) <;> cases fitsOther <;>
    first
      | constructor
      | rcases next with _ | _ | _ | _ | (_ | _) <;>
          simp [fits, startsMember, endsMember, Token.type] at afterToken afterOther

/-- One token may be exchanged for another that is offered at its place if the next token is still
offered then, and the scope holds no other combinator. -/
theorem Typable.exchange (typable : standing.Typable schema (token :: next :: rest))
    (offered : standing.Offers schema other) (follows : (standing.see other).Offers schema next)
    (agrees : ∀ found, other = .combinator found →
      ∀ later ∈ standing.combinator.or (combinatorAhead 0 (next :: rest)), later = found) :
    standing.Typable schema (other :: next :: rest) := by
  obtain ⟨offeredToken, followsToken, later⟩ := typable
  have nearToken : fits (some token) next = true := by
    have fits := followsToken.fits
    rwa [see_previous] at fits
  have nearOther : fits (some other) next = true := by
    have fits := follows.fits
    rwa [see_previous] at fits
  refine ⟨offered, follows, ?_⟩
  cases alike_of_fits offeredToken.fits offered.fits nearToken nearOther with
  | same => exact later
  | fields | operators | values =>
      simp only [see] at later ⊢
      exact later
  | @combinators found chosen =>
      have wanted := agrees chosen rfl
      cases known : standing.combinator with
      | some first =>
          have same : first = found := offeredToken.1.2 first known
          have same' : first = chosen := wanted first (by rw [known]; rfl)
          subst same
          subst same'
          exact later
      | none =>
          have stays : Stays [] next := by
            intro _
            constructor
            · intro same
              subst same
              cases nearToken
            · intro combinator same
              subst same
              cases nearToken
          obtain ⟨deeper, sees, ahead⟩ := stays.see
          have scope : ∀ combinator, standing.see (.combinator combinator) =
              inside (some (.combinator combinator)) [] (some combinator) standing.outer := by
            intro combinator
            rw [see, known]
            rfl
          rw [scope, sees] at later ⊢
          rw [known, Option.none_or] at wanted
          exact Typable.recombine later (ahead rest ▸ wanted)

theorem Offers.reword {raw text : String}
    (offers : (standing.see (.value raw)).Offers schema next) :
    (standing.see (.value text)).Offers schema next := by
  match next, offers with
  | .combinator _, ⟨⟨_, same⟩, _⟩ => exact ⟨⟨rfl, same⟩, fun opening => nomatch opening⟩
  | .bracket .closing, ⟨⟨_, nested⟩, _⟩ =>
      exact ⟨⟨.inr rfl, nested⟩, fun opening => nomatch opening⟩
  | .field _, ⟨⟨starts, _⟩, _⟩ => cases starts
  | .operator _, ⟨⟨_, _, previous, _⟩, _⟩ => cases previous
  | .value _, ⟨⟨_, previous⟩, _⟩ => cases previous
  | .bracket .opening, ⟨starts, _⟩ => cases starts

theorem Typable.reword {raw text : String}
    (typable : standing.Typable schema (.value raw :: rest)) :
    standing.Typable schema (.value text :: rest) := by
  have offered : standing.Offers schema (.value text) :=
    ⟨typable.1.1, fun opening => nomatch opening⟩
  cases rest with
  | nil => exact ⟨offered, along_nil⟩
  | cons next rest =>
      have follows : (standing.see (.value text)).Offers schema next := typable.2.1.reword
      exact typable.exchange offered follows fun _ same => nomatch same

end FilterQuery.Standing
