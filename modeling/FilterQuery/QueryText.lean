import FilterQuery.Draft.Edit
import FilterQuery.Lexeme
import FilterQuery.Text.Basic

namespace FilterQuery

inductive TextError where
  /-- A word that cannot go where it stands, the types that could, and a name that is much like
  the word. -/
  | unexpectedToken (position : Nat) (text : String) (expected : TypeSet) (hint : Option String)
  | edit (error : EditError)
deriving DecidableEq, Repr, Inhabited

def TextError.message : TextError → String
  | unexpectedToken position text expected hint =>
      "Unexpected '" ++ text ++ "' at position " ++ toString position ++ ", expected " ++
        expected.text ++
        match hint with
        | some name => " (did you mean '" ++ name ++ "'?)"
        | none => ""
  | edit error => error.message

namespace QueryText

/-- The name among suggestions that is most like a word, the first of several.  Case is ignored,
and a name that differs from the word in nothing else is no hint. -/
def closestName (word : String) (offered : List Suggestion) : Option String :=
  let word := Text.lower word
  let distance (entry : Suggestion) : Nat := Text.editDistance word (Text.lower entry.name)
  let near := offered.filter fun entry =>
    0 < distance entry && Text.isNear (distance entry) word entry.name
  (Text.leastBy distance near).map Suggestion.name

def unexpected (draft : Draft) (index : Nat) (lexeme : Lexeme) : TextError :=
  let expected :=
    match draft.legalValues index with
    | .ok legal => legal.types
    | .error _ => .empty
  let hint :=
    match draft.suggest index "" with
    | .ok offered => closestName lexeme.text offered
    | .error _ => none
  .unexpectedToken lexeme.start lexeme.text expected hint

/-- The name and type under which a word is taken at a slot with some candidates.  Where only a
value is expected every word but a bracket is one. -/
def selection? (candidates : TypeSet) (lexeme : Lexeme) : Option (String × TokenType) :=
  if candidates == .valueOnly && lexeme.kind != .bracket then some (lexeme.text, .value)
  else
    match lexeme.kind with
    | .bracket => some (lexeme.text, .group)
    | .combinator => (Combinator.ofText? lexeme.text).map fun word => (word.text, .combinator)
    | .field => some (Text.lower lexeme.text, .field)
    | .operator => some (lexeme.text, .operator)
    | .value => some (lexeme.text, .value)
    | .invalid => none

def enter (draft : Draft) (index : Nat) (lexeme : Lexeme) : Except TextError Draft :=
  match draft.candidateTypes index with
  | .error error => .error (.edit error)
  | .ok candidates =>
      match selection? candidates lexeme with
      | none => .error (unexpected draft index lexeme)
      | some (name, type) =>
          match draft.resolve index name type with
          | .ok edited => .ok edited
          | .error _ => .error (unexpected draft index lexeme)

def enterAll (draft : Draft) (index : Nat) : List Lexeme → Except TextError Draft
  | [] => .ok draft
  | lexeme :: rest =>
      match enter draft index lexeme with
      | .ok edited => enterAll edited (index + 1) rest
      | .error error => .error error

def draft (schema : Schema) (text : String) : Except TextError Draft :=
  enterAll (.new schema) 0 (lexemes schema text)

def ruleGroup (schema : Schema) (text : String) : Except TextError RuleGroup :=
  match draft schema text with
  | .error error => .error error
  | .ok typed =>
      match typed.ruleGroup with
      | .ok group => .ok group
      | .error error => .error (.edit error)

def violations (schema : Schema) (text : String) : Except TextError (List Violation) :=
  (draft schema text).map Draft.violations

def endsBlank (text : String) : Bool :=
  text.toList.getLast?.any Text.isBlank

/-- Whether the last word of a text is still being typed: it reaches the end of the text and is
neither a bracket nor quoted. -/
def isPartial (text : String) (last : Lexeme) : Bool :=
  !endsBlank text && last.stop == text.utf8ByteSize && last.kind != .bracket &&
    !Text.isQuoted last.text

/-- The words of a text without one that is still being typed, and the text of that word. -/
def splitPartial (text : String) (words : List Lexeme) : List Lexeme × String :=
  match words.getLast? with
  | some last => if isPartial text last then (words.dropLast, last.text) else (words, "")
  | none => (words, "")

def completions (schema : Schema) (text : String) : Except TextError (List Suggestion) :=
  let (words, typed) := splitPartial text (lexemes schema text)
  match enterAll (.new schema) 0 words with
  | .error error => .error error
  | .ok entered =>
      match entered.suggestMatching words.length typed .labelOrName with
      | .ok offered => .ok offered
      | .error error => .error (.edit error)

end QueryText
end FilterQuery
