import PromqlGuide.Query
import PromqlGuide.Expr.Explain
import PromqlGuide.Expr.ToJson
import PromqlGuide.Json.Reader
import PromqlGuide.Json.Writer
import PromqlGuide.Tree.Grove
import PromqlGuide.Token.Length
import PromqlGuide.Main
import PromqlGuide.Proofs.Query.ReadBack
import PromqlGuide.Proofs.Tree.Shape
import PromqlGuide.Proofs.Query.Standalone
import PromqlGuide.Proofs.Query.Comments
import PromqlGuide.Proofs.Grammar.Bounds
import PromqlGuide.Proofs.Grammar.Depth
import PromqlGuide.Proofs.Tree.Nested
import PromqlGuide.Proofs.Tree.Tokens
import PromqlGuide.Proofs.Expr.WellFormed
import PromqlGuide.Proofs.Query.WellFormed
import PromqlGuide.Proofs.Query.Composition
import PromqlGuide.Proofs.Expr.Refusal
import PromqlGuide.Proofs.Text.Blank
import PromqlGuide.Proofs.Query.Answers
import PromqlGuide.Proofs.Grammar.Parallel
import PromqlGuide.Proofs.Query.Boundaries
import PromqlGuide.Proofs.Written.Indent
import PromqlGuide.Proofs.Query.Surroundings
import PromqlGuide.Proofs.Query.LetterCase
import PromqlGuide.Proofs.Query.Operators
import PromqlGuide.Proofs.Query.Grouping
import PromqlGuide.Proofs.Display.JsonOutput
import PromqlGuide.Proofs.Query.Color
import PromqlGuide.Proofs.Display.PlainText
import PromqlGuide.Proofs.Query.Offsets
import PromqlGuide.Proofs.Query.Ranges
import PromqlGuide.Proofs.Query.Selectors
import PromqlGuide.Proofs.Query.Names
import PromqlGuide.Proofs.Tree.Separators
import PromqlGuide.Proofs.Duration.Parts
import PromqlGuide.Proofs.Duration.Display
import PromqlGuide.Proofs.Expr.Operators
import PromqlGuide.Proofs.Query.Located
import PromqlGuide.Proofs.Config.Faults
import PromqlGuide.Proofs.Config.Settings
import PromqlGuide.Proofs.Cli.ConfigFile
import PromqlGuide.Proofs.Display.Colorized
import PromqlGuide.Proofs.Display.CatalogColor
import PromqlGuide.Proofs.Query.Views
import PromqlGuide.Proofs.Query.Caret
import PromqlGuide.Proofs.Log.Reconfigured
import PromqlGuide.Proofs.Tree.Siblings
import PromqlGuide.Proofs.Query.Decision
