import FilterQuery.Yaml.Cursor
import FilterQuery.Yaml.Token

namespace FilterQuery.Yaml

/-- What has been passed over since the last word, the latest first. -/
inductive Gap where
  | spaces (cs : List Char)
  | breaks (first : Char) (further : List Char)
  /-- A line break that was escaped, and further ones. -/
  | escaped (further : List Char)
deriving DecidableEq, Repr, Inhabited

namespace Gap

def none : Gap :=
  .spaces []

def text : Gap → List Char
  | spaces cs => cs.reverse
  | breaks first further =>
      if first != '\n' then first :: further.reverse
      else if further.isEmpty then [' ']
      else further.reverse
  | escaped further => further.reverse

def hasBreak : Gap → Bool
  | spaces _ => false
  | _ => true

def addSpace (c : Char) : Gap → Gap
  | spaces cs => .spaces (c :: cs)
  | gap => gap

def addBreak (c : Char) : Gap → Gap
  | spaces _ => .breaks c []
  | breaks first further => .breaks first (c :: further)
  | escaped further => .escaped (c :: further)

end Gap

/-- Passes over spaces and line breaks.  After a line break no tab may stand left of a column. -/
def readGap (firstTab : Int) : (fuel : Nat) → Gap → Cursor → Except SyntaxError (Gap × Cursor)
  | 0, gap, cursor => .ok (gap, cursor)
  | fuel + 1, gap, cursor =>
      match cursor.peek with
      | none => .ok (gap, cursor)
      | some c =>
          if isGap c then
            if gap.hasBreak && cursor.column < firstTab && c == '\t' then .error .badIndentation
            else readGap firstTab fuel (gap.addSpace c) cursor.advance
          else if cursor.dialect.isBreak c then
            readGap firstTab fuel (gap.addBreak (keptBreak c)) cursor.skipBreak
          else .ok (gap, cursor)

def simpleEscape? (dialect : Dialect) : Char → Option Char
  | '0' => some '\x00'
  | 'a' => some '\x07'
  | 'b' => some '\x08'
  | 't' => some '\t'
  | '\t' => some '\t'
  | 'n' => some '\n'
  | 'v' => some '\x0b'
  | 'f' => some '\x0c'
  | 'r' => some '\r'
  | 'e' => some '\x1b'
  | ' ' => some ' '
  | '"' => some '"'
  | '\'' => some '\''
  | '\\' => some '\\'
  | 'N' => some '\u0085'
  | '_' => some '\u00a0'
  | 'L' => some '\u2028'
  | 'P' => some '\u2029'
  | '/' => if dialect == .lenient then some '/' else none
  | _ => none

def codeLength? : Char → Option Nat
  | 'x' => some 2
  | 'u' => some 4
  | 'U' => some 8
  | _ => none

def charOfCode? (code : Nat) : Option Char :=
  if code < 0xD800 ∨ (0xE000 ≤ code ∧ code < 0x110000) then some (Char.ofNat code) else none

def readEscape (cursor : Cursor) : Except SyntaxError (Char × Cursor) :=
  match cursor.peekAt 1 with
  | none => .error .badEscape
  | some letter =>
      match simpleEscape? cursor.dialect letter, codeLength? letter with
      | some c, _ => .ok (c, cursor.advanceBy 2)
      | none, some length =>
          let digits := (cursor.rest.drop 2).take length
          if digits.length = length ∧ digits.all Text.isHexDigit then
            match charOfCode? (Text.naturalOfHexDigits digits) with
            | some c => .ok (c, cursor.advanceBy (2 + length))
            | none => .error .badEscape
          else .error .badEscape
      | none, none => .error .badEscape

def readQuoted (single : Bool) :
    (fuel : Nat) → List Char → Cursor → Except SyntaxError (List Char × Cursor)
  | 0, _, _ => .error .unfinishedScalar
  | fuel + 1, text, cursor =>
      if cursor.atDocumentSign then .error .documentSignInScalar
      else
        match cursor.peek with
        | none => .error .unfinishedScalar
        | some c =>
            if isGap c || cursor.dialect.isBreak c then
              match readGap 0 cursor.size .none cursor with
              | .error error => .error error
              | .ok (gap, after) => readQuoted single fuel (gap.text.reverse ++ text) after
            else if single then
              if c == '\'' then
                if cursor.peekAt 1 = some '\'' then
                  readQuoted single fuel ('\'' :: text) (cursor.advanceBy 2)
                else .ok (text.reverse, cursor.advance)
              else readQuoted single fuel (c :: text) cursor.advance
            else if c == '"' then .ok (text.reverse, cursor.advance)
            else if c == '\\' then
              if (cursor.peekAt 1).any cursor.dialect.isBreak then
                match readGap 0 cursor.size (.escaped []) cursor.advance.skipBreak with
                | .error error => .error error
                | .ok (gap, after) => readQuoted single fuel (gap.text.reverse ++ text) after
              else
                match readEscape cursor with
                | .error error => .error error
                | .ok (escaped, after) => readQuoted single fuel (escaped :: text) after
            else readQuoted single fuel (c :: text) cursor.advance

def quotedScalar (single : Bool) (cursor : Cursor) : Except SyntaxError (String × Cursor) :=
  (readQuoted single cursor.size [] cursor.advance).map fun read =>
    (String.ofList read.1, read.2)

/-- Whether a plain scalar ends before a character: at a colon that ends a word, and inside flow
collections at their punctuation. -/
def endsPlain (dialect : Dialect) (inFlow : Bool) (c : Char) (next : Option Char) : Bool :=
  if c == ':' then dialect.endsWord next || (inFlow && next.any isFlowMark)
  else inFlow && isFlowMark c

/-- Reads a plain scalar whose lines must be indented to a column unless it stands inside a flow
collection.  The text so far is given backwards.  Also tells whether a line was broken after the
last word. -/
def readPlain (inFlow : Bool) (indent : Int) :
    (fuel : Nat) → List Char → Gap → Cursor → Except SyntaxError (List Char × Bool × Cursor)
  | 0, text, gap, cursor => .ok (text.reverse, gap.hasBreak, cursor)
  | fuel + 1, text, gap, cursor =>
      if cursor.atDocumentSign then .ok (text.reverse, gap.hasBreak, cursor)
      else
        match cursor.peek with
        | none => .ok (text.reverse, gap.hasBreak, cursor)
        | some c =>
            if isGap c || cursor.dialect.isBreak c then
              match readGap indent cursor.size gap cursor with
              | .error error => .error error
              | .ok (wider, after) =>
                  if !inFlow && after.column < indent then
                    .ok (text.reverse, wider.hasBreak, after)
                  else readPlain inFlow indent fuel text wider after
            else if (c == '#' && gap != .none) ||
                endsPlain cursor.dialect inFlow c (cursor.peekAt 1) then
              .ok (text.reverse, gap.hasBreak, cursor)
            else
              readPlain inFlow indent fuel (c :: (gap.text.reverse ++ text)) .none cursor.advance

def plainScalar (inFlow : Bool) (indent : Int) (cursor : Cursor) :
    Except SyntaxError (String × Bool × Cursor) :=
  (readPlain inFlow indent (cursor.size + 1) [] .none cursor).map fun read =>
    (String.ofList read.1, read.2.1, read.2.2)

inductive Chomping where
  | strip
  | clip
  | keep
deriving DecidableEq, Repr, Inhabited

def readChomping (cursor : Cursor) : Option Chomping × Cursor :=
  match cursor.peek with
  | some '+' => (some .keep, cursor.advance)
  | some '-' => (some .strip, cursor.advance)
  | _ => (none, cursor)

/-- Reads an indentation indicator, if there is one.  It is not zero. -/
def readIncrement (cursor : Cursor) : Except SyntaxError (Nat × Cursor) :=
  match cursor.peek with
  | some c =>
      if c == '0' then .error .badBlockHeader
      else if Text.isAsciiDigit c then .ok (Text.digitValue c, cursor.advance)
      else .ok (0, cursor)
  | none => .ok (0, cursor)

/-- Reads the two indicators of a block scalar in either order, and the rest of their line. -/
def readBlockHeader (cursor : Cursor) : Except SyntaxError (Chomping × Nat × Cursor) :=
  let (before, cursor) := readChomping cursor
  match readIncrement cursor with
  | .error error => .error error
  | .ok (increment, cursor) =>
      let (after, cursor) :=
        if before.isNone ∧ increment ≠ 0 then readChomping cursor else (none, cursor)
      let cursor := cursor.skipGaps.skipComment
      if cursor.endsLineAt 0 then
        .ok ((before.or after).getD .clip, increment, cursor.skipBreak)
      else .error .badBlockHeader

/-- Passes over indentation and line breaks up to the next line that is not empty.  An indentation
of zero is not known yet: then all spaces are passed over, and the widest line is found.  Gives
what a text keeps of the breaks, the latest first, and the widest column. -/
def readBlockBreaks (indent : Nat) :
    (fuel : Nat) → (breaks : List Char) → (widest : Nat) → Cursor →
      Except SyntaxError (List Char × Nat × Cursor)
  | 0, breaks, widest, cursor => .ok (breaks, widest, cursor)
  | fuel + 1, breaks, widest, cursor =>
      let missing := if indent = 0 then cursor.size else indent - cursor.column
      let spaces := (cursor.rest.takeWhile (· == ' ')).length
      let cursor := cursor.advanceBy (min spaces missing)
      let widest := max widest cursor.column
      match cursor.peek with
      | none => .ok (breaks, widest, cursor)
      | some c =>
          if (indent = 0 ∨ cursor.column < indent) ∧ c = '\t' then .error .badIndentation
          else if cursor.dialect.isBreak c then
            readBlockBreaks indent fuel (keptBreak c :: breaks) widest cursor.skipBreak
          else .ok (breaks, widest, cursor)

/-- Passes over the empty lines before a line, with the indentation that then holds. -/
def blockBreaks (parent : Int) (indent : Nat) (cursor : Cursor) :
    Except SyntaxError (List Char × Nat × Cursor) :=
  (readBlockBreaks indent (cursor.size + 1) [] 0 cursor).map fun (breaks, widest, after) =>
    (breaks, if indent = 0 then max (max widest (parent + 1).toNat) 1 else indent, after)

/-- What stands between two lines of a block scalar: a line break, if there is one, and the breaks
of empty lines, all given with the latest first.  In a folded scalar a single line feed between two
lines that do not start with a space becomes a space. -/
def blockJoin (folded spaced : Bool) (lineBreak : Option Char) (emptyLines : List Char) :
    List Char :=
  match lineBreak with
  | none => emptyLines
  | some c =>
      if !folded || spaced || c != '\n' then emptyLines ++ [c]
      else if emptyLines.isEmpty then [' ']
      else emptyLines

/-- Reads the lines of a block scalar.  `lineBreak` and `emptyLines` are what was passed over since
the last line, and `spaced` tells whether that line started with a space.  The text and the breaks
are given backwards. -/
def readBlockLines (folded : Bool) (parent : Int) (indent : Nat) :
    (fuel : Nat) → (text : List Char) → (lineBreak : Option Char) → (spaced : Bool) →
      (emptyLines : List Char) → Cursor →
        Except SyntaxError (List Char × Option Char × List Char × Cursor)
  | 0, text, lineBreak, _, emptyLines, cursor => .ok (text, lineBreak, emptyLines, cursor)
  | fuel + 1, text, lineBreak, spaced, emptyLines, cursor =>
      match cursor.peek with
      | none => .ok (text, lineBreak, emptyLines, cursor)
      | some c =>
          if cursor.column ≠ indent then .ok (text, lineBreak, emptyLines, cursor)
          else
            let (line, after) := cursor.takeLine
            let text :=
              line.reverse ++ blockJoin folded (spaced || isGap c) lineBreak emptyLines ++ text
            match after.peek with
            | none => .ok (text, none, [], after)
            | some ending =>
                match blockBreaks parent indent after.skipBreak with
                | .error error => .error error
                | .ok (empty, _, next) =>
                    readBlockLines folded parent indent fuel text (some (keptBreak ending))
                      (isGap c) empty next

def blockScalar (folded : Bool) (parent : Int) (cursor : Cursor) :
    Except SyntaxError (String × Cursor) := do
  let (chomping, increment, cursor) ← readBlockHeader cursor.advance
  let given := if increment = 0 then 0 else (max parent 0).toNat + increment
  let (empty, indent, cursor) ← blockBreaks parent given cursor
  let (text, lineBreak, emptyLines, cursor) ←
    readBlockLines folded parent indent (cursor.size + 1) [] none false empty cursor
  let lastBreak := if chomping = .strip then [] else lineBreak.toList
  let furtherBreaks := if chomping = .keep then emptyLines else []
  pure (String.ofList (furtherBreaks ++ lastBreak ++ text).reverse, cursor)

end FilterQuery.Yaml
