import FilterQuery.Yaml.Composer
import FilterQuery.Yaml.Node

namespace FilterQuery.Yaml

/-- The anchors seen so far.  A name can be given to several nodes one after the other, so each
anchor has a number of its own. -/
structure Anchors where
  count : Nat
  numbers : List (String × Nat)
  nodes : List (Nat × Node)
deriving Repr, Inhabited

namespace Anchors

def none : Anchors :=
  ⟨0, [], []⟩

abbrev Step (α : Type) :=
  StateT Anchors (Except SyntaxError) α

/-- Gives a number to the anchor of a node, if it has one. -/
def register (properties : Properties) : Step (Option Nat) := do
  match properties.anchor with
  | .none => return .none
  | some name =>
      let anchors ← get
      set { anchors with
        count := anchors.count + 1
        numbers := (name, anchors.count) :: anchors.numbers }
      return some anchors.count

def remember (number : Option Nat) (node : Node) : Step Node := do
  if let some number := number then
    modify fun anchors => { anchors with nodes := (number, node) :: anchors.nodes }
  return node

def aliased (name : String) : Step Node := do
  let anchors ← get
  match anchors.numbers.lookup name with
  | .none => throw .unknownAlias
  | some number => return (anchors.nodes.lookup number).getD .meaningless

mutual

def node : Tree → Step Node
  | .missing => return .null
  | .alias name => aliased name
  | .scalar properties style text => do
      remember (← register properties) (.ofScalar properties.tag style text)
  | .sequence properties items => do
      let number ← register properties
      remember number (.sequence (← itemNodes items))
  | .mapping properties entries => do
      let number ← register properties
      remember number (.ofPairs (← keysAndValues entries))

def itemNodes : List Tree → Step (List Node)
  | [] => return []
  | item :: rest => do
      let first ← node item
      return first :: (← itemNodes rest)

def keysAndValues : List (Tree × Tree) → Step (List Node)
  | [] => return []
  | (key, value) :: rest => do
      let first ← node key
      let second ← node value
      return first :: second :: (← keysAndValues rest)

end

end Anchors

/-- The root of a document.  Anchors of other documents are not known. -/
def Source.node (source : Source) : Except SyntaxError Node :=
  (Anchors.node source.root).run' .none

def roots (dialect : Dialect) (text : String) : Except SyntaxError (List Node) := do
  (← documents dialect text).mapM Source.node

end FilterQuery.Yaml
