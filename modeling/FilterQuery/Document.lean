import FilterQuery.Json.Reader
import FilterQuery.Text.Basic
import FilterQuery.Text.LowerCase
import FilterQuery.Yaml.Anchors

namespace FilterQuery

inductive YamlError where
  | malformed (error : Yaml.SyntaxError)
  | empty
  | notRepresentable
deriving DecidableEq, Repr, Inhabited

def YamlError.message : YamlError → String
  | malformed error => error.message
  | empty => "YAML document is empty"
  | notRepresentable => "YAML document cannot be represented as JSON"

inductive DocumentError where
  | json
  | yaml (error : YamlError)
deriving DecidableEq, Repr, Inhabited

def DocumentError.message : DocumentError → String
  | json => "Invalid JSON: the text is not a JSON value"
  | yaml error => "Invalid YAML: " ++ error.message

namespace Document

def ofJsonText (text : String) : Except DocumentError Json :=
  match Json.read? text with
  | some json => .ok json.tidy
  | none => .error .json

def ofYamlText (text : String) : Except DocumentError Json :=
  match Yaml.roots .strict text with
  | .error error => .error (.yaml (.malformed error))
  | .ok [] => .error (.yaml .empty)
  | .ok (root :: _) =>
      match root.toJson? with
      | some json => .ok json.tidy
      | none => .error (.yaml .notRepresentable)

inductive Format where
  | json
  | yaml
deriving DecidableEq, Repr, Inhabited

def Format.ofPath? (path : String) : Option Format :=
  let path := Text.lower path
  if Text.endsWith path ".json" then some .json
  else if Text.endsWith path ".yaml" || Text.endsWith path ".yml" then some .yaml
  else none

/-- Reads a document in the format that the path tells.  Without one, text that is not JSON is read
as YAML. -/
def read (text : String) (path : Option String) : Except DocumentError Json :=
  match path.bind Format.ofPath? with
  | some .json => ofJsonText text
  | some .yaml => ofYamlText text
  | none =>
      match ofJsonText text with
      | .ok json => .ok json
      | .error _ => ofYamlText text

end Document
end FilterQuery
