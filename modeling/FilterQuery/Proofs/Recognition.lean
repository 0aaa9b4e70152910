import FilterQuery.Proofs.Inspection
import FilterQuery.Proofs.Levels

namespace FilterQuery

/-! Validation accepts exactly the queries of the grammar.

From a phrase to its tokens, the standing follows the derivation.  In the other direction every
viable query is cut at its open brackets, and each part is a partial derivation of its scope.
-/

inductive Phrase where
  | member
  | members (combinator : Combinator)
deriving DecidableEq, Repr

/-- The tokens that form a phrase with the names of a schema.  An operator has to be declared on
the field directly before it. -/
inductive Derives (schema : Schema) : Phrase → List Token → Prop
  | rule {name operator raw : String} {field : Field}
      (found : schema.field? name = some field) (known : (schema.operator? operator).isSome)
      (declared : operator ∈ field.operators) :
      Derives schema .member [.field name, .operator operator, .value raw]
  | emptyGroup : Derives schema .member [.bracket .opening, .bracket .closing]
  | group {combinator : Combinator} {tokens : List Token}
      (inside : Derives schema (.members combinator) tokens) :
      Derives schema .member (.bracket .opening :: (tokens ++ [.bracket .closing]))
  | single {combinator : Combinator} {tokens : List Token}
      (only : Derives schema .member tokens) :
      Derives schema (.members combinator) tokens
  | join {combinator : Combinator} {tokens last : List Token}
      (front : Derives schema (.members combinator) tokens) (member : Derives schema .member last) :
      Derives schema (.members combinator) (tokens ++ .combinator combinator :: last)

def IsQuery (schema : Schema) (tokens : List Token) : Prop :=
  tokens = [] ∨ ∃ combinator, Derives schema (.members combinator) tokens

variable {schema : Schema} {standing : Standing} {tokens front : List Token}
  {found : Option Combinator} {combinator : Combinator}

theorem Derives.isLevel {phrase : Phrase} (derives : Derives schema phrase tokens) : IsLevel tokens := by
  induction derives with
  | rule found known declared => exact .cons rfl (.cons rfl (.cons rfl .nil))
  | emptyGroup => exact .group .nil .nil
  | group inside ih => exact .group ih .nil
  | single only ih => exact ih
  | join front member frontIH memberIH => exact frontIH.append (.cons rfl memberIH)

/-- Whether a scope with or without a combinator can take another one. -/
def Agrees (found : Option Combinator) (combinator : Combinator) : Prop :=
  ∀ first ∈ found, first = combinator

theorem agrees_none : Agrees none combinator := by
  intro first none
  cases none

theorem agrees_some : Agrees (some combinator) combinator := by
  intro first same
  exact (Option.mem_some_iff.mp same).symm

theorem Agrees.or_self (agrees : Agrees found combinator) :
    found.or (some combinator) = some combinator := by
  cases found with
  | none => rfl
  | some first => exact congrArg some (agrees first rfl)

namespace Phrase

def Accepts : Phrase → Option Combinator → Prop
  | member, _ => True
  | members combinator, found => Agrees found combinator

/-- How the combinator of a scope may change when a phrase is read. -/
def Leaves : Phrase → Option Combinator → Option Combinator → Prop
  | member, before, after => after = before
  | members combinator, _, after => Agrees after combinator

end Phrase

/-- What reading a phrase does: its tokens are admitted, and they end a member of the scope in
which they started. -/
structure Passes (schema : Schema) (phrase : Phrase) (standing : Standing) (tokens : List Token) :
    Prop where
  viable : standing.Viable schema tokens
  ends : endsMember (standing.seeAll tokens).previous = true
  outer : (standing.seeAll tokens).outer = standing.outer
  combinator : phrase.Leaves standing.combinator (standing.seeAll tokens).combinator

/-- A phrase may be read wherever a member may start. -/
theorem Derives.passes {phrase : Phrase} (derives : Derives schema phrase tokens)
    (starts : startsMember standing.previous = true)
    (accepts : phrase.Accepts standing.combinator) : Passes schema phrase standing tokens := by
  induction derives generalizing standing with
  | rule found known declared =>
      refine ⟨⟨⟨starts, by simp only [found, Option.isSome_some]⟩,
        ⟨_, _, rfl, found, known, declared⟩, ⟨_, rfl⟩, trivial⟩, rfl, rfl, rfl⟩
  | emptyGroup =>
      exact ⟨⟨starts, ⟨.inl rfl, List.cons_ne_nil _ _⟩, trivial⟩, rfl, rfl, rfl⟩
  | @group combinator tokens inside ih =>
      have body : Passes schema (.members combinator) (standing.see (.bracket .opening)) tokens :=
        ih rfl agrees_none
      have around : ((standing.see (.bracket .opening)).seeAll tokens).outer =
          standing.combinator :: standing.outer := body.outer
      have closes : standing.seeAll (.bracket .opening :: (tokens ++ [.bracket .closing])) =
          ⟨some (.bracket .closing), standing.combinator, standing.outer⟩ := by
        rw [Standing.seeAll_cons, Standing.seeAll_append, Standing.seeAll_cons,
          Standing.seeAll_nil, Standing.see_closing around]
      refine ⟨⟨starts, Standing.viable_append.mpr ⟨body.viable, ⟨.inr body.ends, ?_⟩, trivial⟩⟩,
        ?_, ?_, ?_⟩
      · rw [around]
        exact List.cons_ne_nil _ _
      · rw [closes]
        rfl
      · rw [closes]
      · rw [closes]
        rfl
  | single only ih =>
      have member := ih starts trivial
      refine ⟨member.viable, member.ends, member.outer, ?_⟩
      have same : (standing.seeAll _).combinator = standing.combinator := member.combinator
      rw [Phrase.Leaves, same]
      exact accepts
  | @join combinator tokens last front member frontIH memberIH =>
      have before := frontIH starts accepts
      have agrees : Agrees (standing.seeAll tokens).combinator combinator := before.combinator
      have after : Passes schema .member
          ((standing.seeAll tokens).see (.combinator combinator)) last := memberIH rfl trivial
      refine ⟨Standing.viable_append.mpr ⟨before.viable, ⟨before.ends, agrees⟩, after.viable⟩,
        ?_, ?_, ?_⟩
      · rw [Standing.seeAll_append, Standing.seeAll_cons]
        exact after.ends
      · rw [Standing.seeAll_append, Standing.seeAll_cons]
        exact after.outer.trans before.outer
      · rw [Standing.seeAll_append, Standing.seeAll_cons]
        have same : _ = ((standing.seeAll tokens).combinator).or (some combinator) :=
          after.combinator
        rw [Phrase.Leaves, same, agrees.or_self]
        exact agrees_some

/-- The tokens of a scope where a member may start: none so far, or some members and then the
combinator. -/
inductive Ready (schema : Schema) : Option Combinator → List Token → Prop
  | blank : Ready schema none []
  | joined {combinator : Combinator} {tokens : List Token}
      (front : Derives schema (.members combinator) tokens) :
      Ready schema (some combinator) (tokens ++ [.combinator combinator])

/-- The tokens of a scope that ends in a member.  There is no combinator if it is the only one. -/
inductive Complete (schema : Schema) : Option Combinator → List Token → Prop
  | single {tokens : List Token} (only : Derives schema .member tokens) :
      Complete schema none tokens
  | several {combinator : Combinator} {tokens : List Token}
      (all : Derives schema (.members combinator) tokens) : Complete schema (some combinator) tokens

/-- The tokens of the innermost scope, by the token before the place that has been reached. -/
inductive Innermost (schema : Schema) : Option Token → Option Combinator → List Token → Prop
  | atStart : Innermost schema none none []
  | opened : Innermost schema (some (.bracket .opening)) none []
  | joined {combinator : Combinator} {tokens : List Token}
      (front : Derives schema (.members combinator) tokens) :
      Innermost schema (some (.combinator combinator)) (some combinator)
        (tokens ++ [.combinator combinator])
  | named {name : String} {found : Option Combinator} {tokens : List Token}
      (ready : Ready schema found tokens) :
      Innermost schema (some (.field name)) found (tokens ++ [.field name])
  | compared {name operator : String} {field : Field} {found : Option Combinator}
      {tokens : List Token} (ready : Ready schema found tokens)
      (declaring : schema.field? name = some field) (known : (schema.operator? operator).isSome)
      (declared : operator ∈ field.operators) :
      Innermost schema (some (.operator operator)) found
        (tokens ++ [.field name, .operator operator])
  | complete {previous : Option Token} {found : Option Combinator} {tokens : List Token}
      (ends : endsMember previous = true) (all : Complete schema found tokens) :
      Innermost schema previous found tokens

/-- The tokens up to the innermost open bracket. -/
inductive Around (schema : Schema) : List (Option Combinator) → List Token → Prop
  | outermost : Around schema [] []
  | inside {found : Option Combinator} {outer : List (Option Combinator)}
      {front tokens : List Token} (around : Around schema outer front)
      (ready : Ready schema found tokens) :
      Around schema (found :: outer) (front ++ (tokens ++ [.bracket .opening]))

/-- The tokens so far can be cut at the innermost open bracket. -/
def IsCut (schema : Schema) (standing : Standing) (tokens : List Token) : Prop :=
  ∃ front inner, tokens = front ++ inner ∧ Around schema standing.outer front ∧
    Innermost schema standing.previous standing.combinator inner

theorem Innermost.ready {previous : Option Token} (inner : Innermost schema previous found tokens)
    (starts : startsMember previous = true) : Ready schema found tokens := by
  cases inner with
  | atStart => exact .blank
  | opened => exact .blank
  | joined front => exact .joined front
  | named ready => cases starts
  | compared ready declaring known declared => cases starts
  | complete ends all =>
      match previous, starts, ends with
      | none, _, ends => cases ends
      | some (.bracket .opening), _, ends => cases ends
      | some (.combinator _), _, ends => cases ends

theorem Innermost.complete_of_ends {previous : Option Token}
    (inner : Innermost schema previous found tokens) (ends : endsMember previous = true) :
    Complete schema found tokens := by
  cases inner with
  | complete _ all => exact all
  | atStart | opened | joined | named | compared => cases ends

theorem Ready.member {last : List Token} (ready : Ready schema found tokens)
    (member : Derives schema .member last) : Complete schema found (tokens ++ last) := by
  cases ready with
  | blank => exact .single member
  | joined front =>
      rw [List.append_assoc, List.singleton_append]
      exact .several (.join front member)

theorem Complete.members (all : Complete schema found tokens) (agrees : Agrees found combinator) :
    Derives schema (.members combinator) tokens := by
  cases all with
  | single only => exact .single only
  | several all => exact agrees _ rfl ▸ all

theorem Innermost.bracketed {previous : Option Token}
    (inner : Innermost schema previous found tokens)
    (ends : previous = some (.bracket .opening) ∨ endsMember previous = true) :
    Derives schema .member (.bracket .opening :: (tokens ++ [.bracket .closing])) := by
  rcases ends with rfl | ends
  · cases inner with
    | opened => exact .emptyGroup
    | complete ends all => cases ends
  · cases inner.complete_of_ends ends with
    | single only =>
        have inside : Derives schema (.members .and) tokens := .single only
        exact .group inside
    | several all => exact .group all

theorem IsCut.see {token : Token} (cut : IsCut schema standing tokens)
    (admits : standing.Admits schema token) :
    IsCut schema (standing.see token) (tokens ++ [token]) := by
  obtain ⟨front, inner, rfl, around, innermost⟩ := cut
  rw [List.append_assoc]
  match token, admits with
  | .field name, ⟨starts, _⟩ => exact ⟨_, _, rfl, around, .named (innermost.ready starts)⟩
  | .operator name, ⟨fieldName, field, previous, declaring, known, declared⟩ =>
      rw [previous] at innermost
      cases innermost with
      | complete ends all => cases ends
      | named ready =>
          rw [List.append_assoc, List.singleton_append]
          exact ⟨_, _, rfl, around, .compared ready declaring known declared⟩
  | .value raw, ⟨name, previous⟩ =>
      rw [previous] at innermost
      cases innermost with
      | complete ends all => cases ends
      | compared ready declaring known declared =>
          rw [List.append_assoc]
          exact ⟨_, _, rfl, around,
            .complete rfl (ready.member (.rule declaring known declared))⟩
  | .combinator found, ⟨ends, agrees⟩ =>
      refine ⟨_, _, rfl, around, ?_⟩
      have joined := (innermost.complete_of_ends ends).members agrees
      simpa only [Standing.see, Agrees.or_self agrees] using Innermost.joined joined
  | .bracket .opening, starts =>
      refine ⟨front ++ (inner ++ [Token.bracket .opening]), [], ?_,
        .inside around (innermost.ready starts), .opened⟩
      rw [List.append_nil]
  | .bracket .closing, ⟨ends, nested⟩ =>
      cases outer : standing.outer with
      | nil => exact absurd outer nested
      | cons found outer =>
          rw [outer] at around
          cases around with
          | inside around ready =>
              rw [Standing.see_closing outer, List.append_assoc, List.append_assoc,
                List.singleton_append]
              exact ⟨_, _, rfl, around, .complete rfl (ready.member (innermost.bracketed ends))⟩

theorem IsCut.seeAll {done : List Token} (cut : IsCut schema standing done)
    (viable : standing.Viable schema tokens) :
    IsCut schema (standing.seeAll tokens) (done ++ tokens) := by
  induction tokens generalizing standing done with
  | nil => rwa [List.append_nil]
  | cons token rest ih =>
      have next := ih (cut.see viable.1) viable.2
      rwa [List.append_assoc, List.singleton_append] at next

/-- Viable tokens that are finished are exactly the queries of the grammar. -/
theorem viable_finished_iff :
    Standing.start.Viable schema tokens ∧ (Standing.start.seeAll tokens).Finished ↔
      IsQuery schema tokens := by
  constructor
  · intro finished
    obtain ⟨viable, ends, outer⟩ := finished
    have cut : IsCut schema Standing.start [] := ⟨[], [], rfl, .outermost, .atStart⟩
    obtain ⟨front, inner, same, around, innermost⟩ := cut.seeAll viable
    rw [outer] at around
    cases around
    rw [List.nil_append, List.nil_append] at same
    subst same
    rcases ends with nothing | ends
    · rw [Standing.seeAll_previous, Standing.start, Option.or_none] at nothing
      exact .inl (List.getLast?_eq_none_iff.mp nothing)
    · right
      cases found : (Standing.start.seeAll tokens).combinator with
      | none => exact ⟨.and, (innermost.complete_of_ends ends).members (found ▸ agrees_none)⟩
      | some first => exact ⟨first, (innermost.complete_of_ends ends).members (found ▸ agrees_some)⟩
  · intro query
    rcases query with rfl | ⟨combinator, derives⟩
    · exact ⟨trivial, .inl rfl, rfl⟩
    · have passes : Passes schema (.members combinator) .start tokens :=
        derives.passes rfl agrees_none
      exact ⟨passes.viable, .inr passes.ends, passes.outer⟩

/-- A row of slots is without violations exactly if its tokens are a query and nothing stands typed
but not taken in a pending slot, values apart. -/
theorem validate_eq_nil_iff (schema : Schema) (slots : List Slot) :
    validate schema slots = [] ↔
      (∀ slot ∈ slots, slot.isPending = true → slot.isValueSlot = false → slot.text = "") ∧
        IsQuery schema (resolvedTokens slots) := by
  rw [validate_eq_nil_iff_viable, viable_finished_iff]
  exact Iff.rfl

end FilterQuery
