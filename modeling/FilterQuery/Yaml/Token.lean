namespace FilterQuery.Yaml

inductive Style where
  | plain
  | quoted
  /-- A block of lines that are kept. -/
  | literal
  /-- A block of lines that are joined. -/
  | folded
deriving DecidableEq, Repr, Inhabited

/-- A tag, which says what kind of node it stands before.  The handle is empty for a tag that is
spelled out. -/
structure Tag where
  handle : String
  suffix : String
deriving DecidableEq, Repr, Inhabited

/-- A token.  Indentation and the keys of mappings are tokens of their own. -/
inductive Token where
  | directive (declared : Option (String × String))
  | documentStart
  | documentEnd
  | blockSequenceStart
  | blockMappingStart
  | blockEnd
  | blockEntry
  | flowSequenceStart
  | flowSequenceEnd
  | flowMappingStart
  | flowMappingEnd
  | flowEntry
  | key
  | value
  | anchor (name : String)
  | alias (name : String)
  | tag (tag : Tag)
  | scalar (style : Style) (text : String)
deriving DecidableEq, Repr, Inhabited

inductive SyntaxError where
  | unexpectedCharacter
  | unfinishedScalar
  | documentSignInScalar
  | badEscape
  | badIndentation
  | badBlockHeader
  | badDirective
  | badTag
  | badAnchor
  | misplacedEntry
  | misplacedKey
  | misplacedValue
  | keyWithoutValue
  | nestedTooDeeply
  | unknownAlias
  | unexpectedToken
deriving DecidableEq, Repr, Inhabited

def SyntaxError.message : SyntaxError → String
  | unexpectedCharacter => "unexpected character"
  | unfinishedScalar => "a quoted scalar does not end"
  | documentSignInScalar => "a document starts or ends inside a quoted scalar"
  | badEscape => "an escape does not name a character"
  | badIndentation => "a tab stands where indentation is expected"
  | badBlockHeader => "a block scalar has a malformed header"
  | badDirective => "a directive is malformed"
  | badTag => "a tag is malformed"
  | badAnchor => "an anchor or alias is malformed"
  | misplacedEntry => "a block sequence entry is not allowed here"
  | misplacedKey => "a mapping key is not allowed here"
  | misplacedValue => "a mapping value is not allowed here"
  | keyWithoutValue => "a mapping key has no value"
  | nestedTooDeeply => "collections are nested too deeply"
  | unknownAlias => "an alias has no anchor"
  | unexpectedToken => "an unexpected token was found"

end FilterQuery.Yaml
