namespace FilterQuery

/-- What kind of word a token is. -/
inductive TokenType where
  | field
  | operator
  | value
  | combinator
  | group
deriving DecidableEq, Repr, Inhabited

namespace TokenType

def all : List TokenType :=
  [.field, .operator, .value, .combinator, .group]

def name : TokenType → String
  | .field => "field"
  | .operator => "operator"
  | .value => "value"
  | .combinator => "combinator"
  | .group => "group"

def ofName? (name : String) : Option TokenType :=
  all.find? fun type => type.name == name

theorem mem_all (type : TokenType) : type ∈ all := by
  cases type <;> decide

end TokenType

structure TypeSet where
  hasField : Bool
  hasOperator : Bool
  hasValue : Bool
  hasCombinator : Bool
  hasGroup : Bool
deriving DecidableEq, Repr, Inhabited

namespace TypeSet

def contains (set : TypeSet) : TokenType → Bool
  | .field => set.hasField
  | .operator => set.hasOperator
  | .value => set.hasValue
  | .combinator => set.hasCombinator
  | .group => set.hasGroup

def ofPredicate (member : TokenType → Bool) : TypeSet :=
  ⟨member .field, member .operator, member .value, member .combinator, member .group⟩

@[simp] theorem contains_ofPredicate (member : TokenType → Bool) (type : TokenType) :
    (ofPredicate member).contains type = member type := by
  cases type <;> rfl

def ofList (types : List TokenType) : TypeSet :=
  ofPredicate types.contains

@[simp] theorem contains_ofList (types : List TokenType) (type : TokenType) :
    (ofList types).contains type = types.contains type := by
  rw [ofList, contains_ofPredicate]

def empty : TypeSet :=
  ofList []

def single (type : TokenType) : TypeSet :=
  ofList [type]

def toList (set : TypeSet) : List TokenType :=
  TokenType.all.filter set.contains

@[simp] theorem mem_toList (set : TypeSet) (type : TokenType) :
    type ∈ set.toList ↔ set.contains type = true := by
  rw [toList, List.mem_filter]
  exact ⟨And.right, fun member => ⟨TokenType.mem_all type, member⟩⟩

def insert (set : TypeSet) (type : TokenType) : TypeSet :=
  ofPredicate fun other => other == type || set.contains other

@[simp] theorem contains_insert (set : TypeSet) (added type : TokenType) :
    (set.insert added).contains type = (type == added || set.contains type) := by
  rw [insert, contains_ofPredicate]

def erase (set : TypeSet) (type : TokenType) : TypeSet :=
  ofPredicate fun other => other != type && set.contains other

@[simp] theorem contains_erase (set : TypeSet) (removed type : TokenType) :
    (set.erase removed).contains type = (type != removed && set.contains type) := by
  rw [erase, contains_ofPredicate]

def union (left right : TypeSet) : TypeSet :=
  ofPredicate fun type => left.contains type || right.contains type

@[simp] theorem contains_union (left right : TypeSet) (type : TokenType) :
    (left.union right).contains type = (left.contains type || right.contains type) := by
  rw [union, contains_ofPredicate]

def inter (left right : TypeSet) : TypeSet :=
  ofPredicate fun type => left.contains type && right.contains type

@[simp] theorem contains_inter (left right : TypeSet) (type : TokenType) :
    (left.inter right).contains type = (left.contains type && right.contains type) := by
  rw [inter, contains_ofPredicate]

def size (set : TypeSet) : Nat :=
  set.toList.length

def isEmpty (set : TypeSet) : Bool :=
  set.toList.isEmpty

def text (set : TypeSet) : String :=
  ",".intercalate (set.toList.map TokenType.name)

def initial : TypeSet :=
  ofList [.field, .group]

/-- The set of a slot that waits for a value and for nothing else. -/
def valueOnly : TypeSet :=
  single .value

end TypeSet

def TokenType.follow : TokenType → TypeSet
  | .field => .ofList [.operator]
  | .operator => .ofList [.value]
  | .value => .ofList [.combinator, .group]
  | .combinator => .ofList [.field, .group]
  | .group => .ofList [.field, .combinator, .group]

/-- The types that may come next, after the previous token if there is one. -/
def TypeSet.after : Option TokenType → TypeSet
  | some previous => previous.follow
  | none => .initial

end FilterQuery
