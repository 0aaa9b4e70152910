import FilterQuery.Text.Quoted
import FilterQuery.TokenType

namespace FilterQuery

inductive Combinator where
  | and
  | or
deriving DecidableEq, Repr, Inhabited

namespace Combinator

def all : List Combinator :=
  [.and, .or]

def text : Combinator → String
  | .and => "AND"
  | .or => "OR"

/-- The combinator with a keyword.  The case of ASCII letters is ignored. -/
def ofText? (text : String) : Option Combinator :=
  all.find? fun combinator => combinator.text.toList == text.toList.map Char.toUpper

end Combinator

inductive Bracket where
  | opening
  | closing
deriving DecidableEq, Repr, Inhabited

namespace Bracket

def all : List Bracket :=
  [.opening, .closing]

def text : Bracket → String
  | .opening => "("
  | .closing => ")"

def ofText? (text : String) : Option Bracket :=
  all.find? fun bracket => bracket.text == text

theorem text_of_ofText? {half : Bracket} {text : String} (found : ofText? text = some half) :
    half.text = text := by
  have matching := List.find?_some found
  exact beq_iff_eq.mp matching

end Bracket

/-- A word of a query.  A value is kept as it was written, quotes included. -/
inductive Token where
  | field (name : String)
  | operator (name : String)
  | value (raw : String)
  | combinator (combinator : Combinator)
  | bracket (bracket : Bracket)
deriving DecidableEq, Repr, Inhabited

namespace Token

def type : Token → TokenType
  | .field _ => .field
  | .operator _ => .operator
  | .value _ => .value
  | .combinator _ => .combinator
  | .bracket _ => .group

def text : Token → String
  | .field name => name
  | .operator name => name
  | .value raw => raw
  | .combinator word => word.text
  | .bracket half => half.text

/-- The token of a type that a name stands for.  Values are put between quotes. -/
def ofName? : TokenType → String → Option Token
  | .field, name => some (.field name)
  | .operator, name => some (.operator name)
  | .value, name => some (.value (Text.quote name))
  | .combinator, name => (Combinator.ofText? name).map .combinator
  | .group, name => (Bracket.ofText? name).map .bracket

theorem ofName?_text {token : Token} (notValue : token.type ≠ .value) :
    ofName? token.type token.text = some token := by
  cases token with
  | field | operator => rfl
  | value raw => exact absurd rfl notValue
  | combinator word => cases word <;> rfl
  | bracket half => cases half <;> rfl

theorem type_of_ofName? {type : TokenType} {name : String} {token : Token}
    (named : ofName? type name = some token) : token.type = type := by
  cases type with
  | field | operator | value =>
      cases named
      rfl
  | combinator | group =>
      obtain ⟨_, _, rfl⟩ := Option.map_eq_some_iff.mp named
      rfl

def isOpening (token : Token) : Bool :=
  token == .bracket .opening

def isClosing (token : Token) : Bool :=
  token == .bracket .closing

def weight : Token → Int
  | .bracket .opening => 1
  | .bracket .closing => -1
  | _ => 0

end Token
end FilterQuery
