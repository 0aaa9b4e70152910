import FilterQuery.CommandLine.Basic
import FilterQuery.RuleGroup.Json

namespace FilterQuery

def Suggestion.toJson (entry : Suggestion) : Json :=
  .object
    [("name", .string entry.name), ("label", .string entry.label),
      ("type", .string entry.type.name),
      ("nextLegalTypes", .array (entry.nextLegalTypes.toList.map fun type => .string type.name))]

/-- A suggestion on one line.  The name is shown only where the label is another text. -/
def Suggestion.line (entry : Suggestion) : String :=
  let named := if entry.label = entry.name then "" else " (" ++ entry.name ++ ")"
  entry.label ++ named ++ " [" ++ entry.type.name ++ "]"

def padding (width : Nat) (text : String) : String :=
  String.ofList (List.replicate (width - text.length) ' ')

def Lexeme.line (lexeme : Lexeme) : String :=
  let start := toString lexeme.start
  let stop := toString lexeme.stop
  padding 3 start ++ start ++ ".." ++ stop ++ padding 3 stop ++ " " ++ lexeme.kind.name ++
    padding 10 lexeme.kind.name ++ " " ++ lexeme.text

namespace CommandLine

def joinLines (texts : List String) : String :=
  "\n".intercalate texts

def suggestionText (offered : List Suggestion) : String :=
  if offered.isEmpty then "(no suggestions; a value goes here)"
  else joinLines (offered.map Suggestion.line)

def refusal (head : String) (error : CommandError) : Outcome :=
  .failure [head, "  Error: " ++ error.message]

def violationReport (violations : List Violation) : Outcome :=
  match violations with
  | [] => .success "✓ Query is valid"
  | _ =>
      let plural := if violations.length = 1 then "" else "s"
      .failure (("✗ Query has " ++ toString violations.length ++ " problem" ++ plural) ::
        violations.map fun violation => "  - " ++ violation.message)

/-- The lines of an issue: what it is and where, and what to do about it. -/
def issueLines (issue : Schema.Issue) : List String :=
  ("  - " ++ issue.line) ::
    match issue.suggestion with
    | some advice => ["    Suggestion: " ++ advice]
    | none => []

def schemaReport (path : String) (checked : Except CommandError Schema) : Outcome :=
  let head := "✗ Schema validation failed: " ++ path
  match checked with
  | .ok schema =>
      .success ("✓ Schema is valid (" ++ toString schema.fields.length ++ " fields, " ++
        toString schema.operators.length ++ " operators)")
  | .error (.query (.schema (.invalid issues))) => .failure (head :: issues.flatMap issueLines)
  | .error error => refusal head error

def withSchema {α : Type} (files : Files) (named : Option String)
    (answer : Settings → Schema → Except CommandError α) : Except CommandError α := do
  let settings ← readSettings files
  let schema ← activeSchema files settings named
  answer settings schema

def ofQuery {α : Type} (result : Except TextError α) : Except CommandError α :=
  result.mapError fun error => .query (.text error)

def parsed (query : String) (pretty : Bool) (settings : Settings) (schema : Schema) :
    Except CommandError String :=
  (ofQuery (QueryText.ruleGroup schema query)).map fun group =>
    if pretty || settings.pretty.getD false then group.pretty else group.compact

def suggested (query : String) (json : Bool) (schema : Schema) : Except CommandError String :=
  (ofQuery (QueryText.completions schema query)).map fun offered =>
    if json then (Json.array (offered.map Suggestion.toJson)).pretty else suggestionText offered

def commandWords : List String :=
  ["parse", "validate", "suggest", "tokens", "schema", "completion"]

/-- The script that completes commands in a shell.  The case of the shell's name is ignored. -/
def completionScript (shell : String) : Except CommandError String :=
  let words := " ".intercalate commandWords
  if shell.isEmpty then .error .missingShell
  else
    match Text.lower shell with
    | "bash" => .ok ("complete -W '" ++ words ++ "' rulequery")
    | "zsh" => .ok ("#compdef rulequery\n_values command " ++ words)
    | "fish" => .ok ("complete -c rulequery -f -a '" ++ words ++ "'")
    | _ => .error (.unknownShell shell)

def conclude (head : String) : Except CommandError String → Outcome
  | .ok text => .success text
  | .error error => refusal head error

def run (files : Files) (invocation : Invocation) : Outcome :=
  let named := invocation.schemaPath
  match invocation.command with
  | .parse query pretty =>
      conclude "✗ Query parsing failed" (withSchema files named (parsed query pretty))
  | .validate query =>
      match withSchema files named fun _ schema => ofQuery (QueryText.violations schema query) with
      | .ok violations => violationReport violations
      | .error error => refusal "✗ Validation failed" error
  | .suggest query json =>
      conclude "✗ No suggestions available"
        (withSchema files named fun _ schema => suggested query json schema)
  | .tokens query =>
      conclude "✗ Tokenization failed"
        (withSchema files named fun _ schema =>
          .ok (joinLines ((lexemes schema query).map Lexeme.line)))
  | .printSchema =>
      conclude "✗ Failed to load schema"
        (withSchema files named fun _ schema => .ok schema.toJson.pretty)
  | .checkSchema path => schemaReport path (readSchema files path)
  | .completion shell => conclude "✗ Completion generation failed" (completionScript shell)

end CommandLine
end FilterQuery
