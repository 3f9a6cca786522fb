import Offside.Analysis.Breaks
import Offside.Analysis.Literals
import Offside.Ast
import Offside.Ast.Equality
import Offside.Ast.Json
import Offside.Ast.Operator
import Offside.Cli.Options
import Offside.Cli.Run
import Offside.Decimal.Binary64
import Offside.Decimal.Numeral
import Offside.Decimal.Shortest
import Offside.Decimal.Style
import Offside.Diagnostic
import Offside.Diagnostic.Scan
import Offside.Failure
import Offside.Feature
import Offside.Files
import Offside.Files.Path
import Offside.Grammar.Cursor
import Offside.Grammar.Expression
import Offside.Grammar.FString
import Offside.Grammar.Nesting
import Offside.Grammar.Statement
import Offside.Grammar.Step
import Offside.Json
import Offside.Lowering.Expr
import Offside.Lowering.Stmt
import Offside.Main
import Offside.Proofs.BlankLines
import Offside.Proofs.Blocks
import Offside.Proofs.Bodies
import Offside.Proofs.Concatenation
import Offside.Proofs.Coverage
import Offside.Proofs.Decimals
import Offside.Proofs.Depth
import Offside.Proofs.Derivation.Expression
import Offside.Proofs.Derivation.Failure
import Offside.Proofs.Derivation.Likeness
import Offside.Proofs.Derivation.Nested
import Offside.Proofs.Derivation.Sequence
import Offside.Proofs.Derivation.Statement
import Offside.Proofs.Derivation.Written
import Offside.Proofs.Diagnosis
import Offside.Proofs.Effects
import Offside.Proofs.EmptyPlaceholders
import Offside.Proofs.Execution
import Offside.Proofs.FlagLines
import Offside.Proofs.Flags
import Offside.Proofs.Fragment
import Offside.Proofs.Freshness
import Offside.Proofs.Grouping
import Offside.Proofs.Indentation
import Offside.Proofs.Interpolation
import Offside.Proofs.JavaScript.Arithmetic
import Offside.Proofs.JavaScript.Compact
import Offside.Proofs.JavaScript.Counting
import Offside.Proofs.JavaScript.Expression
import Offside.Proofs.JavaScript.Lexeme
import Offside.Proofs.JavaScript.Reading
import Offside.Proofs.JavaScript.Regrouping
import Offside.Proofs.JavaScript.Rendering
import Offside.Proofs.JavaScript.Soundness
import Offside.Proofs.JavaScript.Statement
import Offside.Proofs.JavaScript.Template
import Offside.Proofs.Layout
import Offside.Proofs.Lexical
import Offside.Proofs.LineEnds
import Offside.Proofs.Lines
import Offside.Proofs.Lookahead
import Offside.Proofs.LoopElse
import Offside.Proofs.Margins
import Offside.Proofs.Names
import Offside.Proofs.Neighbours
import Offside.Proofs.Nodes
import Offside.Proofs.Occurrence
import Offside.Proofs.Offenders
import Offside.Proofs.Omissions
import Offside.Proofs.Overwriting
import Offside.Proofs.Placeholders
import Offside.Proofs.Positions
import Offside.Proofs.Precedence
import Offside.Proofs.Progress
import Offside.Proofs.Quotation
import Offside.Proofs.Ranges
import Offside.Proofs.Reindentation
import Offside.Proofs.ReportLines
import Offside.Proofs.RoundTrip
import Offside.Proofs.Scan
import Offside.Proofs.Separators
import Offside.Proofs.Source
import Offside.Proofs.Spelling
import Offside.Proofs.Steps
import Offside.Proofs.Targets
import Offside.Proofs.Templates
import Offside.Proofs.Unsupported
import Offside.Proofs.Words
import Offside.Proofs.Writing
import Offside.Proofs.Yield
import Offside.Target.Expr
import Offside.Target.Stmt
import Offside.Text.ExtendingMark
import Offside.Text.Literal
import Offside.Text.Printable
import Offside.Text.Ranges
import Offside.Text.Visible
import Offside.Token
import Offside.Token.Layout
import Offside.Token.Lexeme
import Offside.Transpile
import Offside.Writer
