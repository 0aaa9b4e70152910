import FilterQuery.Yaml.Token

namespace FilterQuery.Yaml

/-- What stands before a node. -/
structure Properties where
  anchor : Option String
  tag : Option Tag
deriving DecidableEq, Repr, Inhabited

namespace Properties

def none : Properties :=
  ⟨.none, .none⟩

def isEmpty (properties : Properties) : Bool :=
  properties.anchor.isNone && properties.tag.isNone

end Properties

inductive Tree where
  | missing
  | alias (name : String)
  | scalar (properties : Properties) (style : Style) (text : String)
  | sequence (properties : Properties) (items : List Tree)
  | mapping (properties : Properties) (entries : List (Tree × Tree))
deriving Repr, Inhabited

namespace Tree

def properties : Tree → Properties
  | .missing => .none
  | .alias _ => .none
  | .scalar properties _ _ => properties
  | .sequence properties _ => properties
  | .mapping properties _ => properties

def ownAnchor (tree : Tree) : List (String × Tree) :=
  match tree.properties.anchor with
  | some name => [(name, tree)]
  | none => []

mutual

/-- The nodes with an anchor in the order in which their anchors stand. -/
def anchored : Tree → List (String × Tree)
  | .missing => []
  | .alias _ => []
  | .scalar properties style text => ownAnchor (.scalar properties style text)
  | .sequence properties items => ownAnchor (.sequence properties items) ++ anchoredItems items
  | .mapping properties entries =>
      ownAnchor (.mapping properties entries) ++ anchoredEntries entries

def anchoredItems : List Tree → List (String × Tree)
  | [] => []
  | item :: rest => item.anchored ++ anchoredItems rest

def anchoredEntries : List (Tree × Tree) → List (String × Tree)
  | [] => []
  | (key, value) :: rest => key.anchored ++ value.anchored ++ anchoredEntries rest

end

/-- Anchored nodes with the numbers that aliases go by: how many names are known before each.  A
name that comes again is not counted again, so the next new name shares its number. -/
def numbered (known : List String) : List (String × Tree) → List (Nat × String × Tree)
  | [] => []
  | (name, tree) :: rest =>
      (known.length, name, tree) ::
        numbered (if known.contains name then known else name :: known) rest

/-- The node that a name stands for.  `before` are the anchored nodes before the alias and `all`
those of the whole document.  Of the nodes with one number the last counts. -/
def aliased? (before all : List (String × Tree)) (name : String) : Option Tree := do
  let (number, _) ← (numbered [] before).reverse.find? fun entry => entry.2.1 == name
  let (_, _, tree) ← (numbered [] all).reverse.find? fun entry => entry.1 == number
  return tree

end Tree

structure Source where
  handles : List (String × String)
  root : Tree
deriving Repr, Inhabited

def commonHandles : List (String × String) :=
  [("!", "!"), ("!!", "tag:yaml.org,2002:")]

def Source.tagName (source : Source) (tag : Tag) : String :=
  if tag.handle.isEmpty then tag.suffix
  else ((source.handles ++ commonHandles).lookup tag.handle).getD tag.handle ++ tag.suffix

end FilterQuery.Yaml
