import FilterQuery.Yaml.Cursor
import FilterQuery.Yaml.Token

namespace FilterQuery.Yaml

/-- Whether a character may stand in the suffix of a tag.  The signs of flow collections are not
always among these. -/
def isTagChar (flowMarks : Bool) (c : Char) : Bool :=
  isNameChar c || ";/?:@&=+$.!~*'()%".toList.contains c ||
    (flowMarks && (c == ',' || c == '[' || c == ']'))

def encodedLength? (byte : Nat) : Option Nat :=
  if byte < 0x80 then some 1
  else if 0xC0 ≤ byte ∧ byte < 0xE0 then some 2
  else if 0xE0 ≤ byte ∧ byte < 0xF0 then some 3
  else if 0xF0 ≤ byte ∧ byte < 0xF8 then some 4
  else none

def escapedByte? : List Char → Option (Nat × List Char)
  | '%' :: a :: b :: rest =>
      if Text.isHexDigit a && Text.isHexDigit b then
        some (Text.naturalOfHexDigits [a, b], rest)
      else none
  | _ => none

/-- Reads the further bytes of an escaped character and puts all bytes into one number. -/
def escapedBytes? (dialect : Dialect) (code : Nat) :
    (count : Nat) → List Char → Option (Nat × List Char)
  | 0, cs => some (code, cs)
  | count + 1, cs =>
      match escapedByte? cs with
      | some (byte, rest) =>
          if 0x80 ≤ byte ∧ byte < 0xC0 then
            match dialect with
            | .strict => escapedBytes? dialect (code * 256 + byte) count rest
            | .lenient => escapedBytes? dialect (code * 64 + (byte - 0x80)) count rest
          else none
      | none => none

/-- What the first of several bytes adds to the number of a character.  In the strict dialect the
bytes themselves are the number, in the lenient one what they encode. -/
def leadingBits (dialect : Dialect) (byte length : Nat) : Nat :=
  match dialect, length with
  | .lenient, 2 => byte - 0xC0
  | .lenient, 3 => byte - 0xE0
  | .lenient, 4 => byte - 0xF0
  | _, _ => byte

def escapedTagChar? (dialect : Dialect) (cs : List Char) : Option (Char × Nat) :=
  match escapedByte? cs with
  | none => none
  | some (first, rest) =>
      match encodedLength? first with
      | none => none
      | some length =>
          match escapedBytes? dialect (leadingBits dialect first length) (length - 1) rest with
          | some (code, _) =>
              if code < 0xD800 ∨ (0xE000 ≤ code ∧ code < 0x110000) then
                some (Char.ofNat code, 3 * length)
              else none
          | none => none

def readTagSuffix (flowMarks : Bool) :
    (fuel : Nat) → List Char → Cursor → Except SyntaxError (List Char × Cursor)
  | 0, text, cursor => .ok (text.reverse, cursor)
  | fuel + 1, text, cursor =>
      match cursor.peek with
      | none => .ok (text.reverse, cursor)
      | some c =>
          if !isTagChar flowMarks c then .ok (text.reverse, cursor)
          else if c == '%' then
            match escapedTagChar? cursor.dialect cursor.rest with
            | some (escaped, length) =>
                readTagSuffix flowMarks fuel (escaped :: text) (cursor.advanceBy length)
            | none => .error .badTag
          else readTagSuffix flowMarks fuel (c :: text) cursor.advance

/-- Reads the suffix of a tag, which may be empty only if something stands before it.  In the
lenient dialect the signs of flow collections belong to it only where it is spelled out. -/
def tagSuffix (begun spelledOut : Bool) (cursor : Cursor) :
    Except SyntaxError (List Char × Cursor) :=
  let flowMarks := spelledOut || cursor.dialect == .strict
  match readTagSuffix flowMarks (cursor.size + 1) [] cursor with
  | .ok ([], after) => if begun then .ok ([], after) else .error .badTag
  | result => result

/-- Reads a tag handle: an exclamation mark, a name, and a second mark if there is one.  A handle
in a directive that has a name must have the second mark. -/
def tagHandle (inDirective : Bool) (cursor : Cursor) : Except SyntaxError (List Char × Cursor) :=
  if cursor.peek ≠ some '!' then .error .badTag
  else
    let (name, after) := cursor.advance.takeWhile isNameChar
    if after.peek = some '!' then .ok ('!' :: name ++ ['!'], after.advance)
    else if inDirective && !name.isEmpty then .error .badTag
    else .ok ('!' :: name, after)

def tagParts (cursor : Cursor) : Except SyntaxError (List Char × List Char × Cursor) :=
  if cursor.peekAt 1 = some '<' then
    match tagSuffix false true (cursor.advanceBy 2) with
    | .error error => .error error
    | .ok (suffix, after) =>
        if after.peek = some '>' then .ok ([], suffix, after.advance) else .error .badTag
  else
    match tagHandle false cursor with
    | .error error => .error error
    | .ok (handle, after) =>
        if 2 ≤ handle.length ∧ handle.getLast? = some '!' then
          (tagSuffix false false after).map fun (suffix, after) => (handle, suffix, after)
        else
          (tagSuffix true false after).map fun (suffix, after) =>
            match handle.drop 1 ++ suffix with
            | [] => ([], ['!'], after)
            | whole => (['!'], whole, after)

/-- Reads a tag.  A word must end behind it.  In flow collections of the lenient dialect a comma
will do. -/
def readTag (inFlow : Bool) (cursor : Cursor) : Except SyntaxError (Tag × Cursor) :=
  match tagParts cursor with
  | .error error => .error error
  | .ok (handle, suffix, after) =>
      if after.endsWordAt 0 ||
          (inFlow && cursor.dialect == .lenient && after.peek == some ',') then
        .ok (⟨String.ofList handle, String.ofList suffix⟩, after)
      else .error .badTag

def endsAnchor (dialect : Dialect) : Option Char → Bool
  | some c => dialect.endsWord (some c) || "?:,]\x7d%@\u0060".toList.contains c
  | none => true

def readAnchor (cursor : Cursor) : Except SyntaxError (String × Cursor) :=
  let (name, after) := cursor.advance.takeWhile isNameChar
  if name.isEmpty || !endsAnchor after.dialect after.peek then .error .badAnchor
  else .ok (String.ofList name, after)

def versionNumber (cursor : Cursor) : Except SyntaxError Cursor :=
  let (digits, after) := cursor.takeWhile Text.isAsciiDigit
  if digits.isEmpty || 9 < digits.length then .error .badDirective else .ok after

def versionValue (cursor : Cursor) : Except SyntaxError Cursor := do
  let after ← versionNumber cursor.skipGaps
  if after.peek = some '.' then versionNumber after.advance else .error .badDirective

def tagDirectiveValue (cursor : Cursor) : Except SyntaxError (String × String × Cursor) := do
  let (handle, after) ← tagHandle true cursor.skipGaps
  let (meaning, after) ← tagSuffix false true after.skipGaps
  if after.endsWordAt 0 then pure (String.ofList handle, String.ofList meaning, after)
  else .error .badDirective

/-- Reads the value of a directive: the handle and the meaning that it declares, if it does. -/
def directiveValue (name : String) (cursor : Cursor) :
    Except SyntaxError (Option (String × String) × Cursor) :=
  match name with
  | "YAML" => (versionValue cursor).map fun after => (none, after)
  | "TAG" =>
      (tagDirectiveValue cursor).map fun (handle, meaning, after) =>
        (some (handle, meaning), after)
  | _ => .ok (none, cursor.skipLine)

def readDirective (cursor : Cursor) : Except SyntaxError (Option (String × String) × Cursor) := do
  let (name, after) := cursor.advance.takeWhile isNameChar
  if name.isEmpty || !after.endsWordAt 0 then .error .badDirective
  else
    let (declared, after) ← directiveValue (String.ofList name) after
    let after := after.skipGaps.skipComment
    if after.endsLineAt 0 then pure (declared, after.skipBreak) else .error .badDirective

end FilterQuery.Yaml
