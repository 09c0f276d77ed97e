import TermSearch.Document.Reader
import TermSearch.Grammar.InPlace
import TermSearch.Main
import TermSearch.Proofs.Grammar.Production
import TermSearch.Terminal.Style
import TermSearch.Proofs.Grammar.Lossless
import TermSearch.Proofs.Grammar.Written
import TermSearch.Proofs.Grammar.ReadBack
import TermSearch.Proofs.Grammar.ParsingExpression
import TermSearch.Proofs.Grammar.Documented
import TermSearch.Proofs.Grammar.Exactness
import TermSearch.Proofs.Grammar.Attempts
import TermSearch.Proofs.Grammar.Furthest
import TermSearch.Proofs.Grammar.Outlook
import TermSearch.Proofs.Grammar.Viable
import TermSearch.Proofs.Grammar.Row
import TermSearch.Proofs.Grammar.GroupStart
import TermSearch.Proofs.Grammar.Extension
import TermSearch.Proofs.Grammar.Trailing
import TermSearch.Proofs.Grammar.Shift
import TermSearch.Proofs.Lists.Failure
import TermSearch.Proofs.Query.Meaning
import TermSearch.Proofs.Query.Translation
import TermSearch.Proofs.Query.Violation
import TermSearch.Proofs.Query.Addition
import TermSearch.Proofs.Query.DefaultFields
import TermSearch.Proofs.CommandLine.Request
import TermSearch.Proofs.CommandLine.Filter
import TermSearch.Proofs.Json.Spelling
import TermSearch.Proofs.Json.LaidOut
import TermSearch.Proofs.Json.Words
import TermSearch.Proofs.Json.Value
import TermSearch.Proofs.Json.Cutting
import TermSearch.Proofs.Json.Taking
import TermSearch.Proofs.Json.Skipping
import TermSearch.Proofs.Json.Accepting
import TermSearch.Proofs.Json.Reordering
import TermSearch.Proofs.Json.Nesting
import TermSearch.Proofs.Json.Decoding
import TermSearch.Proofs.Document.RoundTrip
import TermSearch.Proofs.Document.Denotation
import TermSearch.Proofs.Document.Rearrangement
import TermSearch.Proofs.Config.Applicable
import TermSearch.Proofs.Config.AddedFile
import TermSearch.Proofs.Config.Template
import TermSearch.Proofs.Config.FieldNames
import TermSearch.Proofs.Config.Resolution
import TermSearch.Proofs.Config.Discovery
import TermSearch.Proofs.Config.GlobalFile
import TermSearch.Proofs.Document.Depth
import TermSearch.Proofs.CommandLine.Translation
import TermSearch.Proofs.CommandLine.Init
import TermSearch.Proofs.Toml.Strings
import TermSearch.Proofs.Toml.Values
import TermSearch.Proofs.Toml.Statements
import TermSearch.Proofs.Config.SettingsText
import TermSearch.Proofs.Query.Evaluation
import TermSearch.Proofs.Query.NormalForm
import TermSearch.Proofs.Query.Distribution
import TermSearch.Proofs.Text.Lines
import TermSearch.Proofs.Text.Quoted
import TermSearch.Proofs.Query.Display
import TermSearch.Proofs.Grammar.RuleTree
import TermSearch.Proofs.Grammar.Respacing
import TermSearch.Proofs.Grammar.FieldNameHint
import TermSearch.Proofs.Grammar.Caret
import TermSearch.Proofs.Grammar.InPlace
import TermSearch.Proofs.Grammar.Discipline
import TermSearch.Proofs.Config.Warnings
