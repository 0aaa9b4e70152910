import FilterQuery.CommandLine.Run
import FilterQuery.Main
import FilterQuery.RuleGroup.Json
import FilterQuery.Session
import FilterQuery.Proofs.Levels
import FilterQuery.Proofs.Outline
import FilterQuery.Proofs.Members
import FilterQuery.Proofs.BracketOrder
import FilterQuery.Proofs.Seeding
import FilterQuery.Proofs.Neighbours
import FilterQuery.Proofs.CombinatorScopes
import FilterQuery.Proofs.TypedGrammar
import FilterQuery.Proofs.Words
import FilterQuery.Proofs.Typing
import FilterQuery.Proofs.NextToken
import FilterQuery.Proofs.SessionSafety
import FilterQuery.Proofs.SchemaParts
import FilterQuery.Proofs.SessionTyping
import FilterQuery.Proofs.SpacedWords
import FilterQuery.Proofs.Writing
import FilterQuery.Proofs.DeclaredRules
import FilterQuery.Proofs.Completion
import FilterQuery.Proofs.Finishing
import FilterQuery.Proofs.WireFormat
import FilterQuery.Proofs.QuotedValues
import FilterQuery.Proofs.OfferedTokens
import FilterQuery.Proofs.SchemaLoading
import FilterQuery.Proofs.SchemaPrinting
import FilterQuery.Proofs.OpenedTypes
import FilterQuery.Proofs.Reselection
import FilterQuery.Proofs.Rewording
import FilterQuery.Proofs.SharedScopes
import FilterQuery.Proofs.Rejoining
import FilterQuery.Proofs.Keeping
import FilterQuery.Proofs.Pairing
import FilterQuery.Proofs.Origins
import FilterQuery.Proofs.Deletion
import FilterQuery.Proofs.Respacing
import FilterQuery.Proofs.PartialWords
import FilterQuery.Proofs.Narrowing
import FilterQuery.Proofs.OfferedOrder
import FilterQuery.Proofs.UnpairedBrackets
import FilterQuery.Proofs.WordIndices


