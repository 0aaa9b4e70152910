import FilterQuery.Text.Basic
import FilterQuery.Yaml.Composer

namespace FilterQuery.CommandLine

/-- What a settings file can say. -/
structure Settings where
  schemaPath : Option String
  pretty : Option Bool
deriving DecidableEq, Repr, Inhabited

inductive SettingsError where
  | malformed (error : Yaml.SyntaxError)
  | notMapping
  | nameNotText
  | repeated (setting : String)
  | wrongValue (setting : String)
deriving DecidableEq, Repr, Inhabited

def SettingsError.message : SettingsError → String
  | malformed error => error.message
  | notMapping => "the settings are not a mapping"
  | nameNotText => "the name of a setting is not a text"
  | repeated setting => "'" ++ setting ++ "' is set more than once"
  | wrongValue setting => "the value of '" ++ setting ++ "' is of the wrong type"

namespace Settings

open Yaml

def blank : Settings :=
  ⟨none, none⟩

def nullWords : List String :=
  ["~", "null", "Null", "NULL"]

def truthOfWord? (word : String) : Option Bool :=
  if ["true", "True", "TRUE"].contains word then some true
  else if ["false", "False", "FALSE"].contains word then some false
  else none

/-- Whether a plain scalar leaves a setting unset.  Any tag but that of nothing makes it a text.
The tag of nothing must stand before a word for nothing. -/
def isUnsetText? (tag : Option String) (text : String) : Option Bool :=
  let isWord := nullWords.contains text
  match tag with
  | none => some (text.isEmpty || isWord)
  | some name =>
      if name ≠ "tag:yaml.org,2002:null" then some false else if isWord then some true else none

/-- Whether a value leaves a setting unset, if it can be told. -/
def isUnset? (source : Source) : Tree → Option Bool
  | .missing => some true
  | .scalar properties .plain text => isUnsetText? (properties.tag.map source.tagName) text
  | _ => some false

def text? : Tree → Option String
  | .scalar _ _ text => some text
  | _ => none

/-- The truth value of a value: a word that is plain, or a block of kept lines with the tag of
truth values. -/
def truth? (source : Source) : Tree → Option Bool
  | .scalar _ .plain text => truthOfWord? text
  | .scalar properties .literal text =>
      if properties.tag.map source.tagName = some "tag:yaml.org,2002:bool" then truthOfWord? text
      else none
  | _ => none

/-- What a node stands for, where `before` are the anchored nodes before it and `all` those of the
whole file. -/
def resolve (before all : List (String × Tree)) : Tree → Except SettingsError Tree
  | .alias name =>
      match Tree.aliased? before all name with
      | some tree => .ok tree
      | none => .error (.malformed .unknownAlias)
  | tree => .ok tree

def nameOf : Tree → Except SettingsError String
  | .missing => .ok ""
  | .scalar _ _ text => .ok text
  | _ => .error .nameNotText

def namedValues (all : List (String × Tree)) :
    (before : List (String × Tree)) → List (Tree × Tree) →
      Except SettingsError (List (String × Tree))
  | _, [] => .ok []
  | before, (key, value) :: rest => do
      let name ← nameOf (← resolve before all key)
      let before := before ++ key.anchored
      let found ← resolve before all value
      let others ← namedValues all (before ++ value.anchored) rest
      return (name, found) :: others

def read {α : Type} (source : Source) (setting : String) (value? : Tree → Option α)
    (entries : List (String × Tree)) : Except SettingsError (Option α) :=
  match entries.filter fun entry => entry.1 == setting with
  | [] => .ok none
  | [(_, tree)] =>
      match isUnset? source tree, value? tree with
      | some true, _ => .ok none
      | some false, some value => .ok (some value)
      | _, _ => .error (.wrongValue setting)
  | _ => .error (.repeated setting)

/-- Reads the settings of a document.  Unknown settings are passed over, and an empty document sets
nothing. -/
def ofSource (source : Source) : Except SettingsError Settings :=
  match source.root with
  | .missing => .ok blank
  | .scalar _ .plain "" => .ok blank
  | .mapping properties entries => do
      let root := Tree.mapping properties entries
      let named ← namedValues root.anchored root.ownAnchor entries
      let schemaPath ← read source "schema" text? named
      let pretty ← read source "pretty" (truth? source) named
      return ⟨schemaPath, pretty⟩
  | _ => .error .notMapping

/-- Reads the text of a settings file.  A blank file sets nothing. -/
def ofText (text : String) : Except SettingsError Settings :=
  if (Text.trim text).isEmpty then .ok blank
  else
    match Yaml.documents .lenient text with
    | .error error => .error (.malformed error)
    | .ok [] => .ok blank
    | .ok [source] => ofSource source
    | .ok _ => .error .notMapping

end Settings
end FilterQuery.CommandLine
