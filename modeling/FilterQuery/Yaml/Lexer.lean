import FilterQuery.Yaml.Scalar
import FilterQuery.Yaml.Tag

namespace FilterQuery.Yaml

/-! From YAML text to tokens.

Indentation becomes tokens: a block that is indented further than the one around it opens, and
blocks close when the indentation falls back.  A scalar or collection turns out to be a key only
at the colon behind it, so the lexer remembers where the latest possible key of every flow level
started and puts the key token in afterwards.
-/

structure PossibleKey where
  possible : Bool
  required : Bool
  position : Nat
  index : Nat
  line : Nat
  column : Nat
deriving DecidableEq, Repr, Inhabited

def PossibleKey.none : PossibleKey :=
  ⟨false, false, 0, 0, 0, 0⟩

/-- The lexer between two tokens. -/
structure Lexer where
  cursor : Cursor
  tokens : List Token
  count : Nat
  key : PossibleKey
  outerKeys : List PossibleKey
  /-- The column of the current block, or `-1` outside of all blocks. -/
  indent : Int
  outerIndents : List Int
  flowLevel : Nat
  keyAllowed : Bool
  /-- The place directly behind the latest quoted scalar, where a colon needs no space behind it. -/
  quoteEnd : Option Nat
deriving Repr, Inhabited

namespace Lexer

def keyLimit : Nat := 1024

def start (dialect : Dialect) (text : String) : Lexer :=
  ⟨.start dialect text, [], 0, .none, [], -1, [], 0, true, none⟩

def dialect (lexer : Lexer) : Dialect :=
  lexer.cursor.dialect

def inFlow (lexer : Lexer) : Bool :=
  lexer.flowLevel != 0

def push (lexer : Lexer) (token : Token) : Lexer :=
  { lexer with tokens := token :: lexer.tokens, count := lexer.count + 1 }

def insert (lexer : Lexer) (position : Nat) (token : Token) : Lexer :=
  { lexer with
    tokens := lexer.tokens.insertIdx (lexer.count - position) token
    count := lexer.count + 1 }

def pushMark (lexer : Lexer) (token : Token) (length : Nat) : Lexer :=
  { lexer.push token with cursor := lexer.cursor.advanceBy length }

def allowKey (lexer : Lexer) (allowed : Bool) : Lexer :=
  { lexer with keyAllowed := allowed }

/-- Whether a possible key is too far back: on an earlier line, or too many characters away. -/
def isStale (lexer : Lexer) (key : PossibleKey) : Bool :=
  key.possible &&
    (key.line < lexer.cursor.line || key.index + keyLimit < lexer.cursor.index)

/-- Gives up the possible key of the current level if it is too far back.  The keys of the levels
around it can wait until their level is the current one again, for what is too far back stays so. -/
def dropStaleKey (lexer : Lexer) : Except SyntaxError Lexer :=
  if lexer.isStale lexer.key then
    if lexer.key.required then .error .keyWithoutValue
    else .ok { lexer with key := { lexer.key with possible := false } }
  else .ok lexer

def dropKey (lexer : Lexer) : Except SyntaxError Lexer :=
  if lexer.key.possible && lexer.key.required then .error .keyWithoutValue
  else .ok { lexer with key := { lexer.key with possible := false } }

/-- Whether the next token has to be a key.  That is so in the column of the current block: in the
lenient dialect for the block itself, in the strict one for flow collections inside of it. -/
def requiresKey (lexer : Lexer) : Bool :=
  lexer.indent == lexer.cursor.column && lexer.inFlow == (lexer.dialect == .strict)

/-- Remembers that the next token may be a key, where one is allowed. -/
def saveKey (lexer : Lexer) : Except SyntaxError Lexer :=
  if !lexer.keyAllowed then .ok lexer
  else
    lexer.dropKey.map fun lexer =>
      { lexer with
        key :=
          { possible := true
            required := lexer.requiresKey
            position := lexer.count
            index := lexer.cursor.index
            line := lexer.cursor.line
            column := lexer.cursor.column } }

/-- Opens a block at a column if it is further in than the current one.  The token goes to a
position. -/
def openBlock (lexer : Lexer) (column : Nat) (position : Nat) (token : Token) : Lexer :=
  if !lexer.inFlow && lexer.indent < column then
    { lexer.insert position token with
      indent := column
      outerIndents := lexer.indent :: lexer.outerIndents }
  else lexer

def closeBlocksFrom (lexer : Lexer) (column : Int) : List Int → Lexer
  | [] => { lexer with outerIndents := [] }
  | outer :: rest =>
      if column < lexer.indent then
        closeBlocksFrom { lexer.push .blockEnd with indent := outer } column rest
      else { lexer with outerIndents := outer :: rest }

def closeBlocks (lexer : Lexer) (column : Int) : Lexer :=
  if lexer.inFlow then lexer else closeBlocksFrom lexer column lexer.outerIndents

/-- Whether a character is passed over before a token: a space, a tab where no key may start, and
in the lenient dialect a byte order mark at the start of a line.  All of them take a column. -/
def isPassedOver (lexer : Lexer) (c : Char) : Bool :=
  c == ' ' || (c == '\t' && (lexer.inFlow || !lexer.keyAllowed)) ||
    (c == '\ufeff' && lexer.cursor.column == 0 && lexer.dialect == .lenient)

/-- Passes over everything up to the next token.  Outside of flow collections a new line may start
with a key. -/
def skipToToken : (fuel : Nat) → Lexer → Lexer
  | 0, lexer => lexer
  | fuel + 1, lexer =>
      match lexer.cursor.peek with
      | some c =>
          if lexer.isPassedOver c then
            skipToToken fuel { lexer with cursor := lexer.cursor.advance }
          else if lexer.dialect.isBreak c then
            skipToToken fuel
              { lexer with
                cursor := lexer.cursor.skipBreak
                keyAllowed := lexer.keyAllowed || !lexer.inFlow }
          else if c == '#' then
            skipToToken fuel { lexer with cursor := lexer.cursor.skipComment }
          else lexer
      | none => lexer

def documentSign (lexer : Lexer) (token : Token) : Except SyntaxError Lexer :=
  (lexer.closeBlocks (-1)).dropKey.map fun lexer => (lexer.pushMark token 3).allowKey false

def directive (lexer : Lexer) : Except SyntaxError Lexer := do
  let lexer ← (lexer.closeBlocks (-1)).dropKey
  let (declared, cursor) ← readDirective lexer.cursor
  pure { (lexer.push (.directive declared)).allowKey false with cursor }

def openFlow (lexer : Lexer) (token : Token) : Except SyntaxError Lexer := do
  let lexer ← lexer.saveKey
  if lexer.dialect.flowLimit = some lexer.flowLevel then .error .nestedTooDeeply
  else
    let lexer : Lexer :=
      { lexer with
        flowLevel := lexer.flowLevel + 1
        key := .none
        outerKeys := lexer.key :: lexer.outerKeys }
    pure ((lexer.pushMark token 1).allowKey true)

def closeFlow (lexer : Lexer) (token : Token) : Except SyntaxError Lexer := do
  let lexer ← lexer.dropKey
  let lexer : Lexer :=
    match lexer.outerKeys with
    | key :: outer =>
        { lexer with flowLevel := lexer.flowLevel - 1, key := key, outerKeys := outer }
    | [] => lexer
  pure ((lexer.pushMark token 1).allowKey false)

def flowEntry (lexer : Lexer) : Except SyntaxError Lexer := do
  let lexer ← lexer.dropKey
  pure ((lexer.pushMark .flowEntry 1).allowKey true)

def blockEntry (lexer : Lexer) : Except SyntaxError Lexer := do
  if lexer.inFlow || !lexer.keyAllowed then .error .misplacedEntry
  else
    let lexer := lexer.openBlock lexer.cursor.column lexer.count .blockSequenceStart
    let lexer ← lexer.dropKey
    pure ((lexer.pushMark .blockEntry 1).allowKey true)

def explicitKey (lexer : Lexer) : Except SyntaxError Lexer := do
  if !lexer.inFlow && !lexer.keyAllowed then .error .misplacedKey
  else
    let lexer := lexer.openBlock lexer.cursor.column lexer.count .blockMappingStart
    let lexer ← lexer.dropKey
    pure ((lexer.pushMark .key 1).allowKey !lexer.inFlow)

/-- The colon before a value.  If what stands before it may be a key, it is one. -/
def value (lexer : Lexer) : Except SyntaxError Lexer :=
  let key := lexer.key
  if key.possible then
    let lexer :=
      (lexer.insert key.position .key).openBlock key.column key.position .blockMappingStart
    let lexer := { lexer with key := { lexer.key with possible := false } }
    .ok ((lexer.pushMark .value 1).allowKey false)
  else if !lexer.inFlow && !lexer.keyAllowed then .error .misplacedValue
  else
    let lexer := lexer.openBlock lexer.cursor.column lexer.count .blockMappingStart
    .ok ((lexer.pushMark .value 1).allowKey !lexer.inFlow)

def named (lexer : Lexer) (token : String → Token) : Except SyntaxError Lexer := do
  let lexer ← lexer.saveKey
  let (name, cursor) ← readAnchor lexer.cursor
  pure { (lexer.push (token name)).allowKey false with cursor }

def tag (lexer : Lexer) : Except SyntaxError Lexer := do
  let lexer ← lexer.saveKey
  let (tag, cursor) ← readTag lexer.inFlow lexer.cursor
  pure { (lexer.push (.tag tag)).allowKey false with cursor }

/-- A block scalar.  It cannot be a key, which the lenient dialect knows before it is read. -/
def block (lexer : Lexer) (folded : Bool) : Except SyntaxError Lexer := do
  let lexer ← if lexer.dialect == .lenient then lexer.dropKey else lexer.saveKey
  let (text, cursor) ← blockScalar folded lexer.indent lexer.cursor
  let style : Style := if folded then .folded else .literal
  pure { (lexer.push (.scalar style text)).allowKey true with cursor }

def quoted (lexer : Lexer) (single : Bool) : Except SyntaxError Lexer := do
  let lexer ← lexer.saveKey
  let (text, cursor) ← quotedScalar single lexer.cursor
  pure
    { (lexer.push (.scalar .quoted text)).allowKey false with
      cursor := cursor, quoteEnd := some cursor.index }

def plain (lexer : Lexer) : Except SyntaxError Lexer := do
  let lexer ← lexer.saveKey
  let (text, lineBroken, cursor) ← plainScalar lexer.inFlow (lexer.indent + 1) lexer.cursor
  pure { (lexer.push (.scalar .plain text)).allowKey lineBroken with cursor }

/-- Whether a question mark stands before a key.  It needs the end of a word behind it, except
inside flow collections of the lenient dialect. -/
def startsKey (lexer : Lexer) (next : Option Char) : Bool :=
  lexer.dialect.endsWord next || (lexer.inFlow && lexer.dialect == .lenient)

/-- Whether a colon stands before a value.  Like a question mark it needs the end of a word behind
it, but inside flow collections of the strict dialect punctuation behind it or a quoted key before
it will do. -/
def startsValue (lexer : Lexer) (next : Option Char) : Bool :=
  lexer.startsKey next ||
    (lexer.inFlow && (next.any isFlowMark || lexer.quoteEnd == some lexer.cursor.index))

def tokenAt (lexer : Lexer) (c : Char) (next : Option Char) : Except SyntaxError Lexer :=
  match c with
  | '[' => lexer.openFlow .flowSequenceStart
  | '{' => lexer.openFlow .flowMappingStart
  | ']' => lexer.closeFlow .flowSequenceEnd
  | '}' => lexer.closeFlow .flowMappingEnd
  | ',' => lexer.flowEntry
  | '-' => if lexer.dialect.endsWord next then lexer.blockEntry else lexer.plain
  | '?' => if lexer.startsKey next then lexer.explicitKey else lexer.plain
  | ':' => if lexer.startsValue next then lexer.value else lexer.plain
  | '*' => lexer.named .alias
  | '&' => lexer.named .anchor
  | '!' => lexer.tag
  | '|' => if lexer.inFlow then lexer.plain else lexer.block false
  | '>' => if lexer.inFlow then lexer.plain else lexer.block true
  | '\'' => lexer.quoted true
  | '"' => lexer.quoted false
  | '%' => .error .unexpectedCharacter
  | '@' => .error .unexpectedCharacter
  | '\u0060' => .error .unexpectedCharacter
  | _ => lexer.plain

/-- The next token after everything that stands before it.  At the end of the text all blocks are
closed and nothing is left to read. -/
def next (lexer : Lexer) : Except SyntaxError Lexer := do
  let lexer ← (skipToToken (lexer.cursor.size + 1) lexer).dropStaleKey
  let lexer := lexer.closeBlocks lexer.cursor.column
  match lexer.cursor.peek with
  | none => (lexer.closeBlocks (-1)).dropKey
  | some c =>
      if lexer.cursor.column == 0 && c == '%' then lexer.directive
      else if lexer.cursor.column == 0 && lexer.cursor.atTriple '-' then
        lexer.documentSign .documentStart
      else if lexer.cursor.column == 0 && lexer.cursor.atTriple '.' then
        lexer.documentSign .documentEnd
      else lexer.tokenAt c (lexer.cursor.peekAt 1)

/-- All tokens.  Every step takes at least one character. -/
def run : (fuel : Nat) → Lexer → Except SyntaxError (List Token)
  | 0, lexer => .ok lexer.tokens.reverse
  | fuel + 1, lexer =>
      match lexer.next with
      | .error error => .error error
      | .ok after => if after.cursor.rest.isEmpty then finish after else run fuel after
where
  finish (lexer : Lexer) : Except SyntaxError (List Token) :=
    lexer.next.map fun after => after.tokens.reverse

end Lexer

def tokens (dialect : Dialect) (text : String) : Except SyntaxError (List Token) :=
  let lexer := Lexer.start dialect text
  lexer.run (lexer.cursor.size + 1)

end FilterQuery.Yaml
