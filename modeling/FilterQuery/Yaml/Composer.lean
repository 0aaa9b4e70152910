import FilterQuery.Yaml.Lexer
import FilterQuery.Yaml.Tree

namespace FilterQuery.Yaml

abbrev Compose (α : Type) :=
  StateT (List Token) (Except SyntaxError) α

namespace Compose

def peek : Compose (Option Token) := do
  return (← get).head?

def skip : Compose Unit :=
  modify List.tail

def fail {α : Type} : Compose α :=
  throw .unexpectedToken

def skipIf (token : Token) : Compose Bool := do
  if (← peek) = some token then
    skip
    return true
  return false

def before (tokens : List Token) : Compose Bool := do
  match ← peek with
  | some token => return tokens.contains token
  | none => return false

def anchor? : Compose (Option String) := do
  match ← peek with
  | some (.anchor name) =>
      skip
      return some name
  | _ => return none

def tag? : Compose (Option Tag) := do
  match ← peek with
  | some (.tag tag) =>
      skip
      return some tag
  | _ => return none

/-- Reads the anchor and the tag of a node, each at most once and in either order. -/
def properties : Compose Properties := do
  match ← anchor? with
  | some name => return ⟨some name, ← tag?⟩
  | none =>
      match ← tag? with
      | some tag => return ⟨← anchor?, some tag⟩
      | none => return .none

def pairs : List Tree → List (Tree × Tree)
  | key :: value :: rest => (key, value) :: pairs rest
  | _ => []

mutual

/-- Reads a node.  Blocks are allowed only outside of flow collections, and a sequence that is not
indented only as part of a mapping. -/
def node : (fuel : Nat) → (block notIndented : Bool) → Compose Tree
  | 0, _, _ => throw .nestedTooDeeply
  | fuel + 1, block, notIndented => do
      if let some (.alias name) ← peek then
        skip
        return .alias name
      else content fuel block notIndented (← properties)

/-- Reads a node behind its anchor and tag.  Behind one of these it may be missing. -/
def content : (fuel : Nat) → (block notIndented : Bool) → Properties → Compose Tree
  | 0, _, _, _ => throw .nestedTooDeeply
  | fuel + 1, block, notIndented, properties => do
      match ← peek, block, notIndented with
      | some .blockEntry, _, true => return .sequence properties (← unindentedEntries fuel)
      | some (.scalar style text), _, _ =>
          skip
          return .scalar properties style text
      | some .flowSequenceStart, _, _ =>
          skip
          return .sequence properties (← flowItems fuel true)
      | some .flowMappingStart, _, _ =>
          skip
          return .mapping properties (pairs (← flowPairs fuel true))
      | some .blockSequenceStart, true, _ =>
          skip
          return .sequence properties (← blockEntries fuel)
      | some .blockMappingStart, true, _ =>
          skip
          return .mapping properties (pairs (← blockPairs fuel))
      | _, _, _ => if properties.isEmpty then fail else return .scalar properties .plain ""

def blockEntries : (fuel : Nat) → Compose (List Tree)
  | 0 => throw .nestedTooDeeply
  | fuel + 1 => do
      if ← skipIf .blockEnd then return []
      else if ← skipIf .blockEntry then
        let item ←
          if ← before [.blockEntry, .blockEnd] then pure Tree.missing else node fuel true false
        return item :: (← blockEntries fuel)
      else fail

def unindentedEntries : (fuel : Nat) → Compose (List Tree)
  | 0 => throw .nestedTooDeeply
  | fuel + 1 => do
      if ← skipIf .blockEntry then
        let item ←
          if ← before [.blockEntry, .key, .value, .blockEnd] then pure Tree.missing
          else node fuel true false
        return item :: (← unindentedEntries fuel)
      else return []

def blockPart : (fuel : Nat) → Compose Tree
  | 0 => throw .nestedTooDeeply
  | fuel + 1 => do
      if ← before [.key, .value, .blockEnd] then return .missing else node fuel true true

def blockPairs : (fuel : Nat) → Compose (List Tree)
  | 0 => throw .nestedTooDeeply
  | fuel + 1 => do
      if ← skipIf .blockEnd then return []
      else
        let key ←
          if ← skipIf .key then blockPart fuel
          else if ← before [.value] then pure Tree.missing
          else fail
        let value ← if ← skipIf .value then blockPart fuel else pure Tree.missing
        return key :: value :: (← blockPairs fuel)

/-- Reads the value of an entry of a flow collection, which is missing unless a colon comes
next. -/
def flowValue : (fuel : Nat) → (close : Token) → Compose Tree
  | 0, _ => throw .nestedTooDeeply
  | fuel + 1, close => do
      if ← skipIf .value then
        if ← before [.flowEntry, close] then return .missing else node fuel false false
      else return .missing

def flowPairs : (fuel : Nat) → (first : Bool) → Compose (List Tree)
  | 0, _ => throw .nestedTooDeeply
  | fuel + 1, first => do
      if ← skipIf .flowMappingEnd then return []
      else
        if !first then
          unless ← skipIf .flowEntry do fail
        if ← skipIf .flowMappingEnd then return []
        else if ← skipIf .key then
          let key ←
            if ← before [.value, .flowEntry, .flowMappingEnd] then pure Tree.missing
            else node fuel false false
          let value ← flowValue fuel .flowMappingEnd
          return key :: value :: (← flowPairs fuel false)
        else if ← before [.value] then
          let value ← flowValue fuel .flowMappingEnd
          return .missing :: value :: (← flowPairs fuel false)
        else
          let key ← node fuel false false
          return key :: .missing :: (← flowPairs fuel false)

/-- Reads a pair that stands as an item of a flow sequence.  A pair without a key takes the token
that shows this. -/
def flowPair : (fuel : Nat) → Compose Tree
  | 0 => throw .nestedTooDeeply
  | fuel + 1 => do
      let key ←
        if ← before [.value, .flowEntry, .flowSequenceEnd] then do
          skip
          pure Tree.missing
        else node fuel false false
      return .mapping .none [(key, ← flowValue fuel .flowSequenceEnd)]

def flowItems : (fuel : Nat) → (first : Bool) → Compose (List Tree)
  | 0, _ => throw .nestedTooDeeply
  | fuel + 1, first => do
      if ← skipIf .flowSequenceEnd then return []
      else
        if !first then
          unless ← skipIf .flowEntry do fail
        if ← skipIf .flowSequenceEnd then return []
        else if ← skipIf .key then
          let pair ← flowPair fuel
          return pair :: (← flowItems fuel false)
        else
          let item ← node fuel false false
          return item :: (← flowItems fuel false)

end

def directives : (fuel : Nat) → Compose (List (String × String))
  | 0 => pure []
  | fuel + 1 => do
      match ← peek with
      | some (.directive declared) =>
          skip
          return declared.toList ++ (← directives fuel)
      | _ => return []

def skipDocumentEnds : (fuel : Nat) → Compose Unit
  | 0 => pure ()
  | fuel + 1 => do
      if ← skipIf .documentEnd then skipDocumentEnds fuel

/-- Whether the document has no content: another one starts, or this one ends. -/
def atDocumentSign : Compose Bool := do
  match ← peek with
  | none => return true
  | some (.directive _) => return true
  | some token => return [Token.documentStart, .documentEnd].contains token

def explicitDocument (fuel : Nat) : Compose Source := do
  let handles ← directives fuel
  unless ← skipIf .documentStart do fail
  if ← atDocumentSign then return ⟨handles, .missing⟩
  else return ⟨handles, ← node fuel true false⟩

def isExplicit : Compose Bool := do
  match ← peek with
  | some (.directive _) => return true
  | token => return token == some .documentStart

/-- Reads documents to the end.  Only the first may start without a sign.  The fuel is enough for
each of them. -/
def documents (fuel : Nat) : (limit : Nat) → (first : Bool) → Compose (List Source)
  | 0, _ => throw .nestedTooDeeply
  | limit + 1, first => do
      unless first do skipDocumentEnds fuel
      if (← peek).isNone then return []
      else
        let source ←
          if first && !(← isExplicit) then pure ⟨[], ← node fuel true false⟩
          else explicitDocument fuel
        discard (skipIf .documentEnd)
        return source :: (← documents fuel limit false)

end Compose

/-- The documents of a YAML text.  Between two tokens at most four steps are nested. -/
def documents (dialect : Dialect) (text : String) : Except SyntaxError (List Source) := do
  let tokens ← tokens dialect text
  let (sources, _) ← (Compose.documents (4 * tokens.length + 8) (tokens.length + 2) true).run tokens
  return sources

end FilterQuery.Yaml
