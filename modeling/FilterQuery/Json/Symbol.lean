import FilterQuery.Json.Basic
import FilterQuery.Text.Basic

namespace FilterQuery.Json

inductive Symbol where
  | openArray
  | closeArray
  | openObject
  | closeObject
  | comma
  | colon
  | null
  | bool (value : Bool)
  | number (value : Option Number)
  | string (value : Option String)
deriving DecidableEq, Repr, Inhabited

/-- A character of a string as it is written: itself, or the number of a UTF-16 unit. -/
inductive Piece where
  | char (c : Char)
  | unit (code : Nat)
deriving DecidableEq, Repr, Inhabited

def simpleEscape? : Char → Option Char
  | '"' => some '"'
  | '\\' => some '\\'
  | '/' => some '/'
  | 'b' => some '\x08'
  | 'f' => some '\x0c'
  | 'n' => some '\n'
  | 'r' => some '\r'
  | 't' => some '\t'
  | _ => none

/-- Reads up to the closing quote.  Fails at a control character, at an unknown escape and at the
end of the text. -/
def pieces? : List Char → Option (List Piece × List Char)
  | [] => none
  | '"' :: rest => some ([], rest)
  | '\\' :: 'u' :: a :: b :: c :: d :: rest =>
      if [a, b, c, d].all Text.isHexDigit then
        (pieces? rest).map fun read =>
          (.unit (Text.naturalOfHexDigits [a, b, c, d]) :: read.1, read.2)
      else none
  | '\\' :: e :: rest =>
      match simpleEscape? e with
      | some c => (pieces? rest).map fun read => (.char c :: read.1, read.2)
      | none => none
  | c :: rest =>
      if c.toNat < 0x20 then none
      else (pieces? rest).map fun read => (.char c :: read.1, read.2)

def isHighSurrogate (code : Nat) : Bool :=
  0xD800 ≤ code && code < 0xDC00

def isLowSurrogate (code : Nat) : Bool :=
  0xDC00 ≤ code && code < 0xE000

/-- The characters that pieces stand for, unless a half of a pair stands alone. -/
def decodePieces : List Piece → Option (List Char)
  | [] => some []
  | .char c :: rest => (decodePieces rest).map (c :: ·)
  | .unit code :: rest =>
      if isHighSurrogate code then
        match rest with
        | .unit low :: rest =>
            if isLowSurrogate low then
              (decodePieces rest).map
                (Char.ofNat (0x10000 + (code - 0xD800) * 0x400 + (low - 0xDC00)) :: ·)
            else none
        | _ => none
      else if isLowSurrogate code then none
      else (decodePieces rest).map (Char.ofNat code :: ·)

/-- A number as it is written: sign, digits before and after the point, and the exponent. -/
structure Literal where
  negative : Bool
  whole : List Char
  fraction : List Char
  exponent : Option Int
deriving DecidableEq, Repr, Inhabited

def takeDigits (cs : List Char) : List Char × List Char :=
  (cs.takeWhile Text.isAsciiDigit, cs.dropWhile Text.isAsciiDigit)

def fraction? : List Char → Option (List Char × List Char)
  | '.' :: rest =>
      match takeDigits rest with
      | ([], _) => none
      | read => some read
  | rest => some ([], rest)

/-- The exponent of a number, if an `e` comes next.  It needs a digit after it. -/
def exponent? : List Char → Option (Option Int × List Char)
  | c :: rest =>
      if c = 'e' ∨ c = 'E' then
        let (negative, rest) := match rest with
          | '+' :: rest => (false, rest)
          | '-' :: rest => (true, rest)
          | rest => (false, rest)
        match takeDigits rest with
        | ([], _) => none
        | (digits, rest) =>
            let size : Int := Text.naturalOfDigits digits
            some (some (if negative then -size else size), rest)
      else some (none, c :: rest)
  | [] => some (none, [])

/-- Reads a number without its sign.  A zero cannot be followed by another digit. -/
def unsigned? (negative : Bool) (cs : List Char) : Option (Literal × List Char) :=
  match takeDigits cs with
  | ([], _) => none
  | ('0' :: _ :: _, _) => none
  | (whole, rest) => do
      let (fraction, rest) ← fraction? rest
      let (exponent, rest) ← exponent? rest
      pure (⟨negative, whole, fraction, exponent⟩, rest)

def literal? : List Char → Option (Literal × List Char)
  | '-' :: rest => unsigned? true rest
  | cs => unsigned? false cs

def significandLimit : Nat := 18446744073709551615

/-- Appends digits to a significand up to the first that would take it beyond the limit.  Gives
the significand and the digits left over. -/
def gather (significand : Nat) : List Char → Nat × List Char
  | [] => (significand, [])
  | digit :: rest =>
      let next := significand * 10 + Text.digitValue digit
      if significandLimit < next then (significand, digit :: rest) else gather next rest

def greatestPower : Nat := 308

def divideRepeatedly : (times : Nat) → Double → Option Double
  | 0, x => some x
  | times + 1, x =>
      if x.isZero then some x
      else (x.quotient? (Double.tenTo greatestPower)).bind (divideRepeatedly times)

def scaleByTenTo (x : Double) (power : Int) : Option Double :=
  if power < 0 then
    let times := (power.natAbs - 1) / greatestPower
    (divideRepeatedly times x).bind fun y =>
      y.quotient? (Double.tenTo (power.natAbs - times * greatestPower))
  else if power ≤ greatestPower then x.product? (Double.tenTo power.toNat)
  else if x.isZero then some x
  else none

/-- The value of a number.  Without fraction and exponent it is an integer if it fits into 64 bits;
a negative one fits if it is at least `-2 ^ 63`, and minus zero is not an integer.  Any other
number is a significand of at most 64 bits, rounded, times a power of ten, rounded once more. -/
def Literal.value? (literal : Literal) : Option Number :=
  let (whole, beyond) := gather 0 literal.whole
  let signed (x : Double) : Double := if literal.negative then x.negate else x
  match beyond, literal.fraction, literal.exponent with
  | [], [], none =>
      if !literal.negative then some (.integer whole)
      else if 0 < whole ∧ whole ≤ 9223372036854775808 then some (.integer (-whole))
      else (Double.ofRatio? true whole 1).map .real
  | _, _, _ => do
      let (significand, dropped) := gather whole literal.fraction
      let kept : Int := literal.fraction.length - dropped.length
      let start ← Double.ofRatio? false significand 1
      let scaled ← scaleByTenTo start (literal.exponent.getD 0 + beyond.length - kept)
      pure (.real (signed scaled))

def isSpace (c : Char) : Bool :=
  c == ' ' || c == '\t' || c == '\n' || c == '\r'

def symbol? : List Char → Option (Symbol × List Char)
  | '[' :: rest => some (.openArray, rest)
  | ']' :: rest => some (.closeArray, rest)
  | '{' :: rest => some (.openObject, rest)
  | '}' :: rest => some (.closeObject, rest)
  | ',' :: rest => some (.comma, rest)
  | ':' :: rest => some (.colon, rest)
  | 'n' :: 'u' :: 'l' :: 'l' :: rest => some (.null, rest)
  | 't' :: 'r' :: 'u' :: 'e' :: rest => some (.bool true, rest)
  | 'f' :: 'a' :: 'l' :: 's' :: 'e' :: rest => some (.bool false, rest)
  | '"' :: rest =>
      (pieces? rest).map fun read =>
        (.string ((decodePieces read.1).map String.ofList), read.2)
  | cs => (literal? cs).map fun read => (.number read.1.value?, read.2)

/-- Reads symbols to the end of the text.  Every symbol takes at least one character, so the
length of the text is enough fuel. -/
def symbolsFrom : (fuel : Nat) → List Char → Option (List Symbol)
  | _, [] => some []
  | 0, _ :: _ => none
  | fuel + 1, c :: rest =>
      if isSpace c then symbolsFrom fuel rest
      else
        match symbol? (c :: rest) with
        | some (symbol, rest) => (symbolsFrom fuel rest).map (symbol :: ·)
        | none => none

def symbols? (text : List Char) : Option (List Symbol) :=
  symbolsFrom text.length text

end FilterQuery.Json
