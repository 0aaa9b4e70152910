import FilterQuery.Json.Basic
import FilterQuery.Text.Basic
import FilterQuery.Yaml.Token

namespace FilterQuery.Yaml

/-- A node of a YAML document.  A real number keeps its text.  A scalar that does not fit its tag,
or an alias of a node that is not complete, has no meaning. -/
inductive Node where
  | null
  | boolean (value : Bool)
  | integer (value : Int)
  | real (text : String)
  | string (text : String)
  | sequence (items : List Node)
  | mapping (entries : List (Node × Node))
  | meaningless
deriving Repr, Inhabited

def splitSign : List Char → Bool × List Char
  | '+' :: rest => (false, rest)
  | '-' :: rest => (true, rest)
  | rest => (false, rest)

def digitIn? (base : Nat) (c : Char) : Option Nat :=
  if Text.isHexDigit c ∧ Text.hexValue c < base then some (Text.hexValue c) else none

def naturalIn? (base : Nat) : List Char → Option Nat
  | [] => none
  | digits =>
      if digits.all fun c => (digitIn? base c).isSome then
        some (digits.foldl (fun value c => value * base + (digitIn? base c).getD 0) 0)
      else none

def negativeCount : Int := 9223372036854775808

def integerIn? (base : Nat) (cs : List Char) : Option Int :=
  let (negative, digits) := splitSign cs
  match naturalIn? base digits with
  | none => none
  | some size =>
      let value : Int := if negative then -size else size
      if -negativeCount ≤ value ∧ value < negativeCount then some value else none

inductive RealText where
  | notFinite
  | finite (negative : Bool) (significand : Nat) (exponent : Int)
deriving DecidableEq, Repr, Inhabited

def realExponent? : List Char → Option Int
  | [] => some 0
  | c :: rest =>
      if c == 'e' || c == 'E' then
        let (negative, digits) := splitSign rest
        if !digits.isEmpty && digits.all Text.isAsciiDigit then
          let size : Int := Text.naturalOfDigits digits
          some (if negative then -size else size)
        else none
      else none

/-- Reads a number with an optional sign, fraction and exponent.  There must be a digit before the
exponent. -/
def realText? (cs : List Char) : Option RealText :=
  let (negative, unsigned) := splitSign cs
  if ["inf", "infinity", "nan"].contains (String.ofList (unsigned.map Char.toLower)) then
    some .notFinite
  else
    let whole := unsigned.takeWhile Text.isAsciiDigit
    let behind := unsigned.dropWhile Text.isAsciiDigit
    let (fraction, behind) :=
      match behind with
      | '.' :: rest => (rest.takeWhile Text.isAsciiDigit, rest.dropWhile Text.isAsciiDigit)
      | rest => ([], rest)
    if whole.isEmpty && fraction.isEmpty then none
    else
      (realExponent? behind).map fun exponent =>
        .finite negative (Text.naturalOfDigits (whole ++ fraction)) (exponent - fraction.length)

def namedReals : List String :=
  [".inf", ".Inf", ".INF", "+.inf", "+.Inf", "+.INF", "-.inf", "-.Inf", "-.INF",
   ".nan", "NaN", ".NAN"]

def isReal (text : String) : Bool :=
  namedReals.contains text || (realText? text.toList).isSome

def finiteReal? (text : String) : Option Double :=
  match realText? text.toList with
  | some (.finite negative significand exponent) =>
      Double.ofDecimal? negative significand exponent
  | _ => none

namespace Node

/-- An integer as plain scalars write it: hexadecimal, octal, or decimal with an optional sign. -/
def plainInteger? (cs : List Char) : Option Int :=
  let based :=
    match cs with
    | '0' :: 'x' :: digits => integerIn? 16 digits
    | '0' :: 'o' :: digits => integerIn? 8 digits
    | '+' :: digits => integerIn? 10 digits
    | _ => none
  based.or (integerIn? 10 cs)

def ofPlain (text : String) : Node :=
  if text = "~" ∨ text = "null" then .null
  else if text = "true" then .boolean true
  else if text = "false" then .boolean false
  else
    match plainInteger? text.toList with
    | some value => .integer value
    | none => if isReal text then .real text else .string text

def ofCoreTag (suffix text : String) : Node :=
  match suffix with
  | "bool" =>
      if text = "true" then .boolean true
      else if text = "false" then .boolean false
      else .meaningless
  | "int" =>
      match integerIn? 10 text.toList with
      | some value => .integer value
      | none => .meaningless
  | "float" => if isReal text then .real text else .meaningless
  | "null" => if text = "~" ∨ text = "null" then .null else .meaningless
  | _ => .string text

/-- The node of a scalar.  Only plain scalars have types, and only tags of the core types give
other types than the text itself. -/
def ofScalar (tag : Option Tag) (style : Style) (text : String) : Node :=
  if style ≠ .plain then .string text
  else
    match tag with
    | none => ofPlain text
    | some tag => if tag.handle = "!!" then ofCoreTag tag.suffix text else .string text

/-- Whether two nodes are the same scalar.  Collections are never compared. -/
def sameScalar : Node → Node → Bool
  | .null, .null => true
  | .boolean left, .boolean right => left == right
  | .integer left, .integer right => left == right
  | .real left, .real right => left == right
  | .string left, .string right => left == right
  | _, _ => false

/-- Puts an entry in front of others and removes one with the same key. -/
def putEntry (entries : List (Node × Node)) (key value : Node) : List (Node × Node) :=
  (key, value) :: entries.eraseP fun entry => entry.1.sameScalar key

/-- Pairs the nodes of a mapping, keys and values in turn, and gives the latest entry first.  A node
without meaning cannot be a key, and the next node is the key instead. -/
def pairUp (entries : List (Node × Node)) : List Node → List (Node × Node)
  | [] => entries
  | .meaningless :: rest => pairUp entries rest
  | [_] => entries
  | key :: value :: rest => pairUp (putEntry entries key value) rest

def ofPairs (nodes : List Node) : Node :=
  .mapping (pairUp [] nodes).reverse

def keyText? : Node → Option String
  | .string text => some text
  | .real text => some text
  | .integer value => some (toString value)
  | .boolean true => some "true"
  | .boolean false => some "false"
  | _ => none

mutual

/-- The JSON value of a node.  Entries that JSON cannot hold are left out.  A real number that is
not finite is its text. -/
def toJson? : Node → Option Json
  | .null => some .null
  | .boolean value => some (.bool value)
  | .integer value => some (.number (.integer value))
  | .real text =>
      match finiteReal? text with
      | some value => some (.number (.real value))
      | none => some (.string text)
  | .string text => some (.string text)
  | .sequence items => some (.array (itemsToJson items))
  | .mapping entries => some (.object (entriesToJson entries))
  | .meaningless => none

def itemsToJson : List Node → List Json
  | [] => []
  | item :: rest =>
      match item.toJson? with
      | some value => value :: itemsToJson rest
      | none => itemsToJson rest

def entriesToJson : List (Node × Node) → List (String × Json)
  | [] => []
  | (key, value) :: rest =>
      match key.keyText?, value.toJson? with
      | some key, some value => (key, value) :: entriesToJson rest
      | _, _ => entriesToJson rest

end

end Node
end FilterQuery.Yaml
