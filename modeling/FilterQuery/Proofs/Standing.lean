import FilterQuery.Schema.Basic
import FilterQuery.SlotContext

namespace FilterQuery

/-! Where a query stands after some tokens, and which token may come next.

The standing of a query is all that the legality of its next token depends on.  A query is viable
if every one of its tokens was admitted where it stands.
-/

/-- The nearest token, the combinator of its scope, and the combinators of the scopes around that,
the innermost first. -/
structure Standing where
  previous : Option Token
  combinator : Option Combinator
  outer : List (Option Combinator)
deriving DecidableEq, Repr

def startsMember : Option Token → Bool
  | none => true
  | some (.bracket .opening) => true
  | some (.combinator _) => true
  | _ => false

def endsMember : Option Token → Bool
  | some (.value _) => true
  | some (.bracket .closing) => true
  | _ => false

section Follow

variable {previous : Option Token}

theorem follow_field_iff :
    (TypeSet.after (previous.map Token.type)).contains .field = true ∧
        previous ≠ some (.bracket .closing) ↔ startsMember previous = true := by
  rcases previous with _ | (_ | _ | _ | _ | (_ | _)) <;>
    simp [TypeSet.after, TypeSet.initial, TokenType.follow, Token.type, startsMember]

theorem follow_operator_iff :
    (TypeSet.after (previous.map Token.type)).contains .operator = true ↔
      ∃ name, previous = some (.field name) := by
  rcases previous with _ | (_ | _ | _ | _ | (_ | _)) <;>
    simp [TypeSet.after, TypeSet.initial, TokenType.follow, Token.type]

theorem follow_value_iff :
    (TypeSet.after (previous.map Token.type)).contains .value = true ↔
      ∃ name, previous = some (.operator name) := by
  rcases previous with _ | (_ | _ | _ | _ | (_ | _)) <;>
    simp [TypeSet.after, TypeSet.initial, TokenType.follow, Token.type]

theorem follow_combinator_iff :
    (TypeSet.after (previous.map Token.type)).contains .combinator = true ∧
        previous ≠ some (.bracket .opening) ↔ endsMember previous = true := by
  rcases previous with _ | (_ | _ | _ | _ | (_ | _)) <;>
    simp [TypeSet.after, TypeSet.initial, TokenType.follow, Token.type, endsMember]

theorem follow_opening_iff :
    (TypeSet.after (previous.map Token.type)).contains .group = true ∧
        previous ≠ some (.bracket .closing) ∧ (∀ raw, previous ≠ some (.value raw)) ↔
      startsMember previous = true := by
  rcases previous with _ | (_ | _ | _ | _ | (_ | _)) <;>
    simp [TypeSet.after, TypeSet.initial, TokenType.follow, Token.type, startsMember]

theorem follow_closing_iff :
    (TypeSet.after (previous.map Token.type)).contains .group = true ∧ previous ≠ none ∧
        (∀ combinator, previous ≠ some (.combinator combinator)) ↔
      previous = some (.bracket .opening) ∨ endsMember previous = true := by
  rcases previous with _ | (_ | _ | _ | _ | (_ | _)) <;>
    simp [TypeSet.after, TypeSet.initial, TokenType.follow, Token.type, endsMember]

end Follow

namespace Standing

def start : Standing :=
  ⟨none, none, []⟩

def see (standing : Standing) (token : Token) : Standing :=
  match token with
  | .combinator found =>
      ⟨some token, standing.combinator.or (some found), standing.outer⟩
  | .bracket .opening => ⟨some token, none, standing.combinator :: standing.outer⟩
  | .bracket .closing =>
      match standing.outer with
      | [] => { standing with previous := some token }
      | combinator :: outer => ⟨some token, combinator, outer⟩
  | _ => { standing with previous := some token }

def seeAll (standing : Standing) (tokens : List Token) : Standing :=
  tokens.foldl see standing

def Admits (schema : Schema) (standing : Standing) : Token → Prop
  | .field name => startsMember standing.previous = true ∧ (schema.field? name).isSome
  | .operator name =>
      ∃ fieldName field, standing.previous = some (.field fieldName) ∧
        schema.field? fieldName = some field ∧ (schema.operator? name).isSome ∧
        name ∈ field.operators
  | .value _ => ∃ name, standing.previous = some (.operator name)
  | .combinator found =>
      endsMember standing.previous = true ∧ ∀ first ∈ standing.combinator, first = found
  | .bracket .opening => startsMember standing.previous = true
  | .bracket .closing =>
      (standing.previous = some (.bracket .opening) ∨ endsMember standing.previous = true) ∧
        standing.outer ≠ []

/-- Whether every one of some tokens has a property of tokens that come next. -/
def Along (next : Standing → Token → Prop) (standing : Standing) : List Token → Prop
  | [] => True
  | token :: rest => next standing token ∧ (standing.see token).Along next rest

/-- Whether some tokens may come next, one after the other. -/
def Viable (schema : Schema) (standing : Standing) (tokens : List Token) : Prop :=
  standing.Along (Admits schema) tokens

def Finished (standing : Standing) : Prop :=
  (standing.previous = none ∨ endsMember standing.previous = true) ∧ standing.outer = []

variable {schema : Schema} {standing : Standing} {token : Token} {front back : List Token}

@[simp] theorem seeAll_nil : standing.seeAll [] = standing := rfl

@[simp] theorem seeAll_cons :
    standing.seeAll (token :: back) = (standing.see token).seeAll back := rfl

@[simp] theorem seeAll_append :
    standing.seeAll (front ++ back) = (standing.seeAll front).seeAll back :=
  List.foldl_append

@[simp] theorem see_previous : (standing.see token).previous = some token := by
  unfold see
  split
  · rfl
  · rfl
  · split <;> rfl
  · rfl

theorem see_closing {combinator : Option Combinator} {outer : List (Option Combinator)}
    (around : standing.outer = combinator :: outer) :
    standing.see (.bracket .closing) = ⟨some (.bracket .closing), combinator, outer⟩ := by
  unfold see
  rw [around]

/-- Brackets stand between members. -/
theorem Admits.between {half : Bracket} (admits : standing.Admits schema (.bracket half)) :
    startsMember standing.previous = true ∨ endsMember standing.previous = true := by
  cases half with
  | opening => exact .inl admits
  | closing =>
      rcases admits.1 with opened | ends
      · rw [opened]
        exact .inl rfl
      · exact .inr ends

theorem seeAll_previous :
    (standing.seeAll front).previous = front.getLast?.or standing.previous := by
  induction front generalizing standing with
  | nil => rfl
  | cons token rest ih =>
      rw [seeAll_cons, ih, see_previous, List.getLast?_cons]
      cases rest.getLast? <;> rfl

section Along

variable {next weaker : Standing → Token → Prop}

@[simp] theorem along_nil : standing.Along next [] := trivial

@[simp] theorem along_cons : standing.Along next (token :: back) ↔
    next standing token ∧ (standing.see token).Along next back := Iff.rfl

theorem along_append : standing.Along next (front ++ back) ↔
    standing.Along next front ∧ (standing.seeAll front).Along next back := by
  induction front generalizing standing with
  | nil => simp only [List.nil_append, along_nil, seeAll_nil, true_and]
  | cons token rest ih =>
      simp only [List.cons_append, along_cons, seeAll_cons, ih, and_assoc]

theorem Along.mono (along : standing.Along next front)
    (implied : ∀ standing token, next standing token → weaker standing token) :
    standing.Along weaker front := by
  induction front generalizing standing with
  | nil => exact along_nil
  | cons token rest ih => exact ⟨implied _ _ along.1, ih along.2⟩

end Along

theorem viable_append : standing.Viable schema (front ++ back) ↔
    standing.Viable schema front ∧ (standing.seeAll front).Viable schema back :=
  along_append

end Standing

namespace ScopeStack

variable {stack : ScopeStack} {previous : Option Token} {token : Token} {tokens : List Token}

/-- The standing inside some scopes after the nearest token. -/
def standing (stack : ScopeStack) (previous : Option Token) : Standing :=
  ⟨previous, stack.top.combinator, stack.outer.map Scope.combinator⟩

@[simp] theorem standing_see :
    (stack.see token).standing (some token) = (stack.standing previous).see token := by
  cases token with
  | field name => rfl
  | operator name => rfl
  | value raw => rfl
  | combinator found => rfl
  | bracket half =>
      cases half with
      | opening => rfl
      | closing =>
          cases outer : stack.outer with
          | nil => simp only [standing, see, Standing.see, outer, List.map_nil]
          | cons scope outer' => simp only [standing, see, Standing.see, outer, List.map_cons]

theorem standing_seeAll : (stack.seeAll tokens).standing (tokens.getLast?.or previous) =
    (stack.standing previous).seeAll tokens := by
  induction tokens generalizing stack previous with
  | nil => rfl
  | cons token rest ih =>
      have later : rest.getLast?.or (some token) = (token :: rest).getLast?.or previous := by
        rw [List.getLast?_cons]
        cases rest.getLast? <;> rfl
      change ((stack.see token).seeAll rest).standing _ = _
      rw [← later, ih, @standing_see stack previous, Standing.seeAll_cons]

end ScopeStack
end FilterQuery
