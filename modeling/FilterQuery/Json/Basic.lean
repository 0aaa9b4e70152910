import FilterQuery.Double

namespace FilterQuery

/-- A JSON number: written as an integer, or anything else. -/
inductive Number where
  | integer (value : Int)
  | real (value : Double)
deriving DecidableEq, Repr, Inhabited

inductive Json where
  | null
  | bool (value : Bool)
  | number (value : Number)
  | string (value : String)
  | array (items : List Json)
  | object (members : List (String × Json))
deriving Repr, Inhabited

namespace Json

def member? (key : String) (members : List (String × Json)) : Option Json :=
  (members.reverse.find? fun member => member.1 == key).map (·.2)

/-- Puts a member into a list sorted by key, in place of a member with the same key. -/
def insertMember (key : String) (value : Json) : List (String × Json) → List (String × Json)
  | [] => [(key, value)]
  | (other, held) :: rest =>
      if key = other then (key, value) :: rest
      else if key < other then (key, value) :: (other, held) :: rest
      else (other, held) :: insertMember key value rest

mutual

/-- The same value with the members of every object sorted by key and one member for each key,
the last one written. -/
def tidy : Json → Json
  | .array items => .array (tidyItems items)
  | .object members => .object (tidyMembers members [])
  | .null => .null
  | .bool value => .bool value
  | .number value => .number value
  | .string value => .string value

def tidyItems : List Json → List Json
  | [] => []
  | item :: rest => item.tidy :: tidyItems rest

def tidyMembers : List (String × Json) → List (String × Json) → List (String × Json)
  | [], sorted => sorted
  | (key, value) :: rest, sorted => tidyMembers rest (insertMember key value.tidy sorted)

end

end Json
end FilterQuery
