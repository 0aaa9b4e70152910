import FilterQuery.RuleGroup.Basic
import FilterQuery.Text.LowerCase

namespace FilterQuery

/-! The rule group that tokens form.

Any tokens form a group.  Parts of rules that are never completed are dropped, groups without
members are left out, brackets that are still open at the end are closed there, and a closing
bracket without a partner ends the query.
-/

structure PartialRule where
  field : Option String
  operator : Option String
  value : Option String
deriving DecidableEq, Repr, Inhabited

namespace PartialRule

def blank : PartialRule :=
  ⟨none, none, none⟩

def complete? : PartialRule → Option Rule
  | ⟨some field, some operator, some value⟩ => some ⟨Text.lower field, operator, value⟩
  | _ => none

end PartialRule

/-- A group that is being formed.  Its members stand with the latest first. -/
structure OpenGroup where
  combinator : Combinator
  members : List RuleNode
  pending : PartialRule
deriving Repr, Inhabited

namespace OpenGroup

def blank : OpenGroup :=
  ⟨.and, [], .blank⟩

def finish (group : OpenGroup) : RuleGroup :=
  ⟨group.combinator, group.members.reverse⟩

/-- The group with one more group in it, unless that one has no members. -/
def addGroup (group : OpenGroup) (inner : RuleGroup) : OpenGroup :=
  if inner.isEmpty then group
  else { group with members := inner.toNode :: group.members }

/-- The group with the value of its unfinished rule.  The rule becomes a member if that completes
it. -/
def addValue (group : OpenGroup) (value : String) : OpenGroup :=
  let pending := { group.pending with value := some value }
  match pending.complete? with
  | some rule => { group with members := .rule rule :: group.members, pending := .blank }
  | none => { group with pending := pending }

def see (group : OpenGroup) : Token → OpenGroup
  | .field name => { group with pending := { PartialRule.blank with field := some name } }
  | .operator name => { group with pending := { group.pending with operator := some name } }
  | .value raw => group.addValue (Text.unquote raw)
  | .combinator combinator => { group with combinator := combinator, pending := .blank }
  | .bracket _ => group

end OpenGroup

namespace RuleGroup

def closeAll (current : OpenGroup) : List OpenGroup → RuleGroup
  | [] => current.finish
  | parent :: outer => closeAll (parent.addGroup current.finish) outer

/-- Goes on with an open group inside others, the innermost first.  Gives the outermost group and
the tokens that are left unread behind a closing bracket without a partner. -/
def build (current : OpenGroup) (outer : List OpenGroup) : List Token → RuleGroup × List Token
  | [] => (closeAll current outer, [])
  | .bracket .opening :: rest => build .blank (current :: outer) rest
  | .bracket .closing :: rest =>
      match outer with
      | [] => (current.finish, rest)
      | parent :: outer => build (parent.addGroup current.finish) outer rest
  | token :: rest => build (current.see token) outer rest

/-- The rule group that tokens form, and the tokens that play no part in it. -/
def read (tokens : List Token) : RuleGroup × List Token :=
  build .blank [] tokens

def ofTokens (tokens : List Token) : RuleGroup :=
  (read tokens).1

end RuleGroup
end FilterQuery
