import FilterQuery.CommandLine.Files
import FilterQuery.CommandLine.Settings
import FilterQuery.QueryText
import FilterQuery.Schema.Loading

namespace FilterQuery

inductive QueryError where
  | schema (error : SchemaError)
  | text (error : TextError)
deriving Repr, Inhabited

def QueryError.message : QueryError → String
  | schema error => "Schema error: " ++ error.message
  | text error => "Query text error: " ++ error.message

namespace CommandLine

inductive Command where
  | parse (query : String) (pretty : Bool)
  | validate (query : String)
  | suggest (query : String) (json : Bool)
  | tokens (query : String)
  | printSchema
  | checkSchema (path : String)
  | completion (shell : String)
deriving DecidableEq, Repr, Inhabited

/-- A command, and the file of the schema if one was named with it. -/
structure Invocation where
  command : Command
  schemaPath : Option String
deriving DecidableEq, Repr, Inhabited

/-- What a command leaves behind: an exit code and two texts. -/
structure Outcome where
  code : Nat
  output : String
  errors : String
deriving DecidableEq, Repr, Inhabited

def lines (texts : List String) : String :=
  String.join (texts.map (· ++ "\n"))

namespace Outcome

def success (text : String) : Outcome :=
  ⟨0, lines [text], ""⟩

def failure (texts : List String) : Outcome :=
  ⟨1, "", lines texts⟩

end Outcome

def settingsPath : String := ".rulequery/config.yaml"

def shellNames : List String :=
  ["bash", "zsh", "fish"]

inductive CommandError where
  | settings (error : SettingsError)
  | unreadableSettings (error : FileError)
  | unreadableSchema (path : String) (error : FileError)
  | query (error : QueryError)
  | missingShell
  | unknownShell (name : String)
deriving Repr, Inhabited

def supportedShells : String :=
  "Supported shells: " ++ ", ".intercalate shellNames

def CommandError.message : CommandError → String
  | settings error => "Failed to parse config file: " ++ error.message
  | unreadableSettings error => "Failed to read config file: " ++ error.message
  | unreadableSchema path error => "Failed to read schema " ++ path ++ ": " ++ error.message
  | query error => error.message
  | missingShell => "Shell name is required. " ++ supportedShells
  | unknownShell name => "Unsupported shell: " ++ name ++ ". " ++ supportedShells

/-- Reads the settings of the project.  There need not be any. -/
def readSettings (files : Files) : Except CommandError Settings :=
  match files settingsPath with
  | .ok text => (Settings.ofText text).mapError .settings
  | .error error =>
      if error = .missing ∨ error = .notDirectory then .ok .blank
      else .error (.unreadableSettings error)

def readSchema (files : Files) (path : String) : Except CommandError Schema :=
  match files path with
  | .error error => .error (.unreadableSchema path error)
  | .ok text => (Schema.load text (some path)).mapError fun error => .query (.schema error)

/-- The schema to work with: the one named with the command, else the one in the settings, else the
built-in one. -/
def activeSchema (files : Files) (settings : Settings) (named : Option String) :
    Except CommandError Schema :=
  match named.or settings.schemaPath with
  | some path => readSchema files path
  | none => .ok .builtin

end CommandLine
end FilterQuery
