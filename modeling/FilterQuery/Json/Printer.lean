import FilterQuery.Double
import FilterQuery.Json.Basic

namespace FilterQuery

def Number.integerChars (value : Int) : List Char :=
  if value < 0 then '-' :: Double.digitsOf value.natAbs else Double.digitsOf value.natAbs

def Number.chars : Number → List Char
  | .integer value => integerChars value
  | .real value => value.chars

namespace Json

def hexDigit (n : Nat) : Char :=
  if n < 10 then Char.ofNat ('0'.toNat + n) else Char.ofNat ('a'.toNat + (n - 10))

/-- One character inside a JSON string.  Only the quote, the backslash and the control characters
below the space are escaped. -/
def escapedChar (c : Char) : List Char :=
  if c = '"' then ['\\', '"']
  else if c = '\\' then ['\\', '\\']
  else if c = '\x08' then ['\\', 'b']
  else if c = '\t' then ['\\', 't']
  else if c = '\n' then ['\\', 'n']
  else if c = '\x0c' then ['\\', 'f']
  else if c = '\r' then ['\\', 'r']
  else if c.toNat < 0x20 then
    ['\\', 'u', '0', '0', hexDigit (c.toNat / 16), hexDigit (c.toNat % 16)]
  else [c]

def escapedChars (cs : List Char) : List Char :=
  cs.flatMap escapedChar

def stringChars (text : String) : List Char :=
  '"' :: escapedChars text.toList ++ ['"']

mutual

def compactChars : Json → List Char
  | .null => ['n', 'u', 'l', 'l']
  | .bool true => ['t', 'r', 'u', 'e']
  | .bool false => ['f', 'a', 'l', 's', 'e']
  | .number value => value.chars
  | .string value => stringChars value
  | .array [] => ['[', ']']
  | .array (item :: rest) => '[' :: item.compactChars ++ compactItems rest ++ [']']
  | .object [] => ['{', '}']
  | .object ((key, value) :: rest) =>
      '{' :: stringChars key ++ ':' :: value.compactChars ++ compactMembers rest ++ ['}']

def compactItems : List Json → List Char
  | [] => []
  | item :: rest => ',' :: item.compactChars ++ compactItems rest

def compactMembers : List (String × Json) → List Char
  | [] => []
  | (key, value) :: rest =>
      ',' :: stringChars key ++ ':' :: value.compactChars ++ compactMembers rest

end

def lineBreak (level : Nat) : List Char :=
  '\n' :: List.replicate (2 * level) ' '

mutual

/-- The form laid out over several lines, for a value that stands at a level. -/
def prettyChars (level : Nat) : Json → List Char
  | .null => ['n', 'u', 'l', 'l']
  | .bool true => ['t', 'r', 'u', 'e']
  | .bool false => ['f', 'a', 'l', 's', 'e']
  | .number value => value.chars
  | .string value => stringChars value
  | .array [] => ['[', ']']
  | .array (item :: rest) =>
      '[' :: lineBreak (level + 1) ++ item.prettyChars (level + 1) ++
        prettyItems (level + 1) rest ++ lineBreak level ++ [']']
  | .object [] => ['{', '}']
  | .object ((key, value) :: rest) =>
      '{' :: lineBreak (level + 1) ++ stringChars key ++ ':' :: ' ' ::
        value.prettyChars (level + 1) ++ prettyMembers (level + 1) rest ++
        lineBreak level ++ ['}']

def prettyItems (level : Nat) : List Json → List Char
  | [] => []
  | item :: rest => ',' :: lineBreak level ++ item.prettyChars level ++ prettyItems level rest

def prettyMembers (level : Nat) : List (String × Json) → List Char
  | [] => []
  | (key, value) :: rest =>
      ',' :: lineBreak level ++ stringChars key ++ ':' :: ' ' ::
        value.prettyChars level ++ prettyMembers level rest

end

mutual

def writeCompact (out : String) : Json → String
  | .array (item :: rest) => compactItemsOnto (item.writeCompact (out ++ "[")) rest ++ "]"
  | .object ((key, value) :: rest) =>
      compactMembersOnto
        (value.writeCompact (out ++ String.ofList ('{' :: stringChars key ++ [':']))) rest ++
        "\x7d"
  | scalar => out ++ String.ofList scalar.compactChars

def compactItemsOnto (out : String) : List Json → String
  | [] => out
  | item :: rest => compactItemsOnto (item.writeCompact (out ++ ",")) rest

def compactMembersOnto (out : String) : List (String × Json) → String
  | [] => out
  | (key, value) :: rest =>
      compactMembersOnto
        (value.writeCompact (out ++ String.ofList (',' :: stringChars key ++ [':']))) rest

end

mutual

/-- The text with the form over several lines of a value behind it, where the value stands at a
level. -/
def writePretty (level : Nat) (out : String) : Json → String
  | .array (item :: rest) =>
      prettyItemsOnto (level + 1)
        (item.writePretty (level + 1) (out ++ String.ofList ('[' :: lineBreak (level + 1)))) rest ++
        String.ofList (lineBreak level ++ [']'])
  | .object ((key, value) :: rest) =>
      prettyMembersOnto (level + 1)
        (value.writePretty (level + 1)
          (out ++ String.ofList
            ('{' :: lineBreak (level + 1) ++ stringChars key ++ [':', ' ']))) rest ++
        String.ofList (lineBreak level ++ ['}'])
  | scalar => out ++ String.ofList (scalar.prettyChars level)

def prettyItemsOnto (level : Nat) (out : String) : List Json → String
  | [] => out
  | item :: rest =>
      prettyItemsOnto level
        (item.writePretty level (out ++ String.ofList (',' :: lineBreak level))) rest

def prettyMembersOnto (level : Nat) (out : String) : List (String × Json) → String
  | [] => out
  | (key, value) :: rest =>
      prettyMembersOnto level
        (value.writePretty level
          (out ++ String.ofList (',' :: lineBreak level ++ stringChars key ++ [':', ' ']))) rest

end

def compact (json : Json) : String :=
  json.writeCompact ""

def pretty (json : Json) : String :=
  json.writePretty 0 ""

mutual

theorem toList_writeCompact (out : String) (json : Json) :
    (json.writeCompact out).toList = out.toList ++ json.compactChars := by
  cases json with
  | array items =>
      cases items with
      | nil => simp [writeCompact]
      | cons item rest =>
          simp [writeCompact, compactChars, toList_compactItemsOnto, toList_writeCompact]
  | object members =>
      cases members with
      | nil => simp [writeCompact]
      | cons member rest =>
          simp [writeCompact, compactChars, toList_compactMembersOnto, toList_writeCompact]
  | _ => simp [writeCompact]

theorem toList_compactItemsOnto (out : String) (items : List Json) :
    (compactItemsOnto out items).toList = out.toList ++ compactItems items := by
  cases items with
  | nil => simp [compactItemsOnto, compactItems]
  | cons item rest =>
      simp [compactItemsOnto, compactItems, toList_compactItemsOnto, toList_writeCompact]

theorem toList_compactMembersOnto (out : String) (members : List (String × Json)) :
    (compactMembersOnto out members).toList = out.toList ++ compactMembers members := by
  cases members with
  | nil => simp [compactMembersOnto, compactMembers]
  | cons member rest =>
      simp [compactMembersOnto, compactMembers, toList_compactMembersOnto, toList_writeCompact]

end

mutual

theorem toList_writePretty (level : Nat) (out : String) (json : Json) :
    (json.writePretty level out).toList = out.toList ++ json.prettyChars level := by
  cases json with
  | array items =>
      cases items with
      | nil => simp [writePretty]
      | cons item rest =>
          simp [writePretty, prettyChars, toList_prettyItemsOnto, toList_writePretty]
  | object members =>
      cases members with
      | nil => simp [writePretty]
      | cons member rest =>
          simp [writePretty, prettyChars, toList_prettyMembersOnto, toList_writePretty]
  | _ => simp [writePretty]

theorem toList_prettyItemsOnto (level : Nat) (out : String) (items : List Json) :
    (prettyItemsOnto level out items).toList = out.toList ++ prettyItems level items := by
  cases items with
  | nil => simp [prettyItemsOnto, prettyItems]
  | cons item rest =>
      simp [prettyItemsOnto, prettyItems, toList_prettyItemsOnto, toList_writePretty]

theorem toList_prettyMembersOnto (level : Nat) (out : String)
    (members : List (String × Json)) :
    (prettyMembersOnto level out members).toList = out.toList ++ prettyMembers level members := by
  cases members with
  | nil => simp [prettyMembersOnto, prettyMembers]
  | cons member rest =>
      simp [prettyMembersOnto, prettyMembers, toList_prettyMembersOnto, toList_writePretty]

end

theorem toList_compact (json : Json) : json.compact.toList = json.compactChars := by
  simp [compact, toList_writeCompact]

theorem toList_pretty (json : Json) : json.pretty.toList = json.prettyChars 0 := by
  simp [pretty, toList_writePretty]

end Json
end FilterQuery
