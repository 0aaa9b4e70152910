import FilterQuery.Text.Basic

namespace FilterQuery.Yaml

inductive Dialect where
  /-- Only line feeds and carriage returns break lines, and byte order marks are text. -/
  | strict
  /-- The Unicode signs for lines break lines as well, and a byte order mark may start one. -/
  | lenient
deriving DecidableEq, Repr, Inhabited

def isGap (c : Char) : Bool :=
  c == ' ' || c == '\t'

def isSeparator (c : Char) : Bool :=
  c == '\u2028' || c == '\u2029'

def keptBreak (c : Char) : Char :=
  if isSeparator c then c else '\n'

def isFlowMark (c : Char) : Bool :=
  c == ',' || c == '[' || c == ']' || c == '{' || c == '}'

namespace Dialect

def isBreak (dialect : Dialect) (c : Char) : Bool :=
  c == '\n' || c == '\r' ||
    (dialect == .lenient && (c == '\u0085' || isSeparator c))

/-- Whether columns are counted anew behind a character.  In the strict dialect a carriage return
that stands alone breaks a line but does not start a new count. -/
def restartsColumns (dialect : Dialect) (c : Char) : Bool :=
  match dialect with
  | strict => c == '\n'
  | lenient => dialect.isBreak c

def flowLimit : Dialect → Option Nat
  | strict => some 255
  | lenient => none

def endsLine (dialect : Dialect) : Option Char → Bool
  | some c => dialect.isBreak c
  | none => true

def endsWord (dialect : Dialect) : Option Char → Bool
  | some c => isGap c || dialect.isBreak c
  | none => true

end Dialect

structure Cursor where
  dialect : Dialect
  /-- The number of characters of the whole text, which bounds the steps of every reader. -/
  size : Nat
  rest : List Char
  index : Nat
  line : Nat
  column : Nat
deriving DecidableEq, Repr, Inhabited

/-- Whether a character may stand in the name of an anchor, a tag handle or a directive. -/
def isNameChar (c : Char) : Bool :=
  Text.isAsciiDigit c || ('a' ≤ c && c ≤ 'z') || ('A' ≤ c && c ≤ 'Z') || c == '_' || c == '-'

namespace Cursor

def start (dialect : Dialect) (text : String) : Cursor :=
  let contents := text.toList.takeWhile (· != '\x00')
  ⟨dialect, contents.length, contents, 0, 0, 0⟩

def peek (cursor : Cursor) : Option Char :=
  cursor.rest.head?

def peekAt (cursor : Cursor) (count : Nat) : Option Char :=
  cursor.rest[count]?

def advance (cursor : Cursor) : Cursor :=
  match cursor.rest with
  | [] => cursor
  | c :: rest =>
      if cursor.dialect.restartsColumns c then
        { cursor with
          rest := rest, index := cursor.index + 1, line := cursor.line + 1, column := 0 }
      else { cursor with rest := rest, index := cursor.index + 1, column := cursor.column + 1 }

def advanceBy (cursor : Cursor) : Nat → Cursor
  | 0 => cursor
  | count + 1 => cursor.advance.advanceBy count

def takeWhile (cursor : Cursor) (keep : Char → Bool) : List Char × Cursor :=
  let taken := cursor.rest.takeWhile keep
  (taken, cursor.advanceBy taken.length)

def skipWhile (cursor : Cursor) (keep : Char → Bool) : Cursor :=
  (cursor.takeWhile keep).2

def skipGaps (cursor : Cursor) : Cursor :=
  cursor.skipWhile isGap

def endsLineAt (cursor : Cursor) (count : Nat) : Bool :=
  cursor.dialect.endsLine (cursor.peekAt count)

def endsWordAt (cursor : Cursor) (count : Nat) : Bool :=
  cursor.dialect.endsWord (cursor.peekAt count)

def takeLine (cursor : Cursor) : List Char × Cursor :=
  cursor.takeWhile fun c => !cursor.dialect.isBreak c

def skipLine (cursor : Cursor) : Cursor :=
  cursor.takeLine.2

def skipComment (cursor : Cursor) : Cursor :=
  if cursor.peek = some '#' then cursor.skipLine else cursor

/-- Past one line break, if there is one.  A carriage return and a line feed are one break. -/
def skipBreak (cursor : Cursor) : Cursor :=
  match cursor.rest with
  | '\r' :: '\n' :: _ => cursor.advanceBy 2
  | c :: _ => if cursor.dialect.isBreak c then cursor.advance else cursor
  | [] => cursor

def atTriple (cursor : Cursor) (mark : Char) : Bool :=
  cursor.rest.take 3 == [mark, mark, mark] && cursor.endsWordAt 3

/-- Whether a line starts here with the sign that a document starts or ends. -/
def atDocumentSign (cursor : Cursor) : Bool :=
  cursor.column == 0 && (cursor.atTriple '-' || cursor.atTriple '.')

end Cursor
end FilterQuery.Yaml
