import FilterQuery.CommandLine.Basic

namespace FilterQuery.CommandLine

/-- The options and the other words of a command line. -/
structure Arguments where
  values : List (String × String)
  flags : List String
  words : List String
deriving DecidableEq, Repr, Inhabited

namespace Arguments

def valueOptions : List String :=
  ["--schema", "--check"]

def flagOptions : List String :=
  ["--pretty", "--json", "--verbose", "-v"]

def splitOption (word : String) : String × Option String :=
  let cs := word.toList
  match cs.dropWhile (· != '=') with
  | '=' :: value => (String.ofList (cs.takeWhile (· != '=')), some (String.ofList value))
  | _ => (word, none)

def isOption (word : String) : Bool :=
  match word.toList with
  | '-' :: _ :: _ => true
  | _ => false

def ofWords? : List String → Option Arguments
  | [] => some ⟨[], [], []⟩
  | "--" :: rest => some ⟨[], [], rest⟩
  | word :: rest =>
      if !isOption word then
        (ofWords? rest).map fun found => { found with words := word :: found.words }
      else if flagOptions.contains word then
        (ofWords? rest).map fun found => { found with flags := word :: found.flags }
      else
        let add (name value : String) (found : Arguments) : Arguments :=
          { found with values := (name, value) :: found.values }
        let (name, given) := splitOption word
        if !valueOptions.contains name then none
        else
          match given with
          | some value => (ofWords? rest).map (add name value)
          | none =>
              match rest with
              | value :: others => (ofWords? others).map (add name value)
              | [] => none

def value? (arguments : Arguments) (name : String) : Option String :=
  arguments.values.lookup name

def command? (arguments : Arguments) : Option Command :=
  match arguments.words with
  | ["parse", query] => some (.parse query (arguments.flags.contains "--pretty"))
  | ["validate", query] => some (.validate query)
  | ["suggest", query] => some (.suggest query (arguments.flags.contains "--json"))
  | ["tokens", query] => some (.tokens query)
  | ["schema"] =>
      match arguments.value? "--check" with
      | some path => some (.checkSchema path)
      | none => some .printSchema
  | ["completion", shell] => some (.completion shell)
  | _ => none

def invocation? (arguments : Arguments) : Option Invocation :=
  arguments.command?.map fun command => ⟨command, arguments.value? "--schema"⟩

end Arguments

def Invocation.ofWords? (words : List String) : Option Invocation :=
  (Arguments.ofWords? words).bind Arguments.invocation?

/-- The files that an invocation may read, apart from one that the settings name. -/
def Invocation.paths (invocation : Invocation) : List String :=
  match invocation.command with
  | .checkSchema path => [path]
  | .completion _ => []
  | _ => settingsPath :: invocation.schemaPath.toList

end FilterQuery.CommandLine
