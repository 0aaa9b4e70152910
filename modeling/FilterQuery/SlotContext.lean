import FilterQuery.Slot

namespace FilterQuery

structure Scope where
  field : Option String
  combinator : Option Combinator
deriving DecidableEq, Repr, Inhabited

namespace Scope

def blank : Scope :=
  ⟨none, none⟩

def see (scope : Scope) : Token → Scope
  | .field name => { scope with field := some name }
  | .combinator combinator =>
      { scope with combinator := scope.combinator.or (some combinator) }
  | _ => scope

end Scope

/-- The scopes that are open at some point of a query: the innermost, then those around it. -/
structure ScopeStack where
  top : Scope
  outer : List Scope
deriving DecidableEq, Repr, Inhabited

namespace ScopeStack

def start : ScopeStack :=
  ⟨.blank, []⟩

/-- The scopes after one more token.  A closing bracket without a partner changes nothing. -/
def see (stack : ScopeStack) : Token → ScopeStack
  | .bracket .opening => ⟨.blank, stack.top :: stack.outer⟩
  | .bracket .closing =>
      match stack.outer with
      | [] => stack
      | scope :: outer => ⟨scope, outer⟩
  | token => { stack with top := stack.top.see token }

def seeAll (stack : ScopeStack) (tokens : List Token) : ScopeStack :=
  tokens.foldl see stack

end ScopeStack

structure SlotContext where
  predecessor : Option Token
  scopeField : Option String
  /-- The combinator of the slot's bracket scope, before the slot or else after it. -/
  scopeCombinator : Option Combinator
  openBefore : Nat
  closeBefore : Nat
  /-- How many more brackets open than close in all other slots. -/
  unmatchedElsewhere : Int
deriving DecidableEq, Repr, Inhabited

def balance : List Token → Int
  | [] => 0
  | token :: rest => token.weight + balance rest

theorem balance_append (front back : List Token) :
    balance (front ++ back) = balance front + balance back := by
  induction front with
  | nil => simp only [List.nil_append, balance, Int.zero_add]
  | cons token rest ih => rw [List.cons_append, balance, balance, ih, Int.add_assoc]

theorem balance_eq (tokens : List Token) :
    balance tokens = tokens.countP Token.isOpening - tokens.countP Token.isClosing := by
  induction tokens with
  | nil => rfl
  | cons token rest ih =>
      rw [balance, ih, List.countP_cons, List.countP_cons]
      cases token with
      | field | operator | value | combinator =>
          simp [Token.weight, Token.isOpening, Token.isClosing]
      | bracket half =>
          cases half with
          | opening =>
              simp [Token.weight, Token.isOpening, Token.isClosing]
              omega
          | closing =>
              simp [Token.weight, Token.isOpening, Token.isClosing]
              omega

/-- The first combinator among the tokens that belongs to the scope in which they start.  `depth`
is the number of brackets opened since. -/
def combinatorAhead (depth : Nat) : List Token → Option Combinator
  | [] => none
  | .bracket .opening :: rest => combinatorAhead (depth + 1) rest
  | .bracket .closing :: rest =>
      match depth with
      | 0 => none
      | depth + 1 => combinatorAhead depth rest
  | .combinator combinator :: rest =>
      match depth with
      | 0 => some combinator
      | depth + 1 => combinatorAhead (depth + 1) rest
  | _ :: rest => combinatorAhead depth rest

namespace SlotContext

def between (before after : List Token) : SlotContext :=
  let scope := (ScopeStack.start.seeAll before).top
  { predecessor := before.getLast?
    scopeField := scope.field
    scopeCombinator := scope.combinator.or (combinatorAhead 0 after)
    openBefore := before.countP Token.isOpening
    closeBefore := before.countP Token.isClosing
    unmatchedElsewhere := balance before + balance after }

/-- The surroundings of the slot at an index.  What the slot itself holds plays no part, and past
the last slot all tokens stand before. -/
def around (slots : List Slot) (index : Nat) : SlotContext :=
  between (resolvedTokens (slots.take index)) (resolvedTokens (slots.drop (index + 1)))

/-- The index behind another one.  The greatest has none. -/
def nextIndex? (index : UInt64) : Option UInt64 :=
  if index.toNat + 1 < UInt64.size then some (index + 1) else none

/-- The surroundings of the place at any index, whether there is a slot or not.  If the scope has
no combinator before the place, one is looked for from the next index on, and nothing is told where
there is no next index. -/
def ofIndex? (slots : List Slot) (index : UInt64) : Option SlotContext :=
  let before := resolvedTokens (slots.take index.toNat)
  let here := around slots index.toNat
  match (ScopeStack.start.seeAll before).top.combinator with
  | some found => some { here with scopeCombinator := some found }
  | none =>
      (nextIndex? index).map fun next =>
        { here with
          scopeCombinator := combinatorAhead 0 (resolvedTokens (slots.drop next.toNat)) }

end SlotContext
end FilterQuery
