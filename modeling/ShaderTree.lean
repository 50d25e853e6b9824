import ShaderTree.Check.Issue
import ShaderTree.Check.Issues
import ShaderTree.Expectation.Directive
import ShaderTree.Expectation.Match
import ShaderTree.Expectation.Pattern
import ShaderTree.Expr
import ShaderTree.Func
import ShaderTree.Glsl.Clause
import ShaderTree.Glsl.Literal
import ShaderTree.Glsl.Name
import ShaderTree.Glsl.Render
import ShaderTree.Glsl.StructTable
import ShaderTree.Golden.Normal
import ShaderTree.Golden.TestFile
import ShaderTree.Layout
import ShaderTree.Listing.Blank
import ShaderTree.Listing.Grammar
import ShaderTree.Listing.Literal
import ShaderTree.Listing.Number
import ShaderTree.Listing.Parser
import ShaderTree.Listing.Print
import ShaderTree.Listing.Read
import ShaderTree.Log
import ShaderTree.Number.Binary64
import ShaderTree.Number.Decimal
import ShaderTree.Number.Rounding
import ShaderTree.Number.Significant
import ShaderTree.Operator
import ShaderTree.Program
import ShaderTree.Proofs.Clauses
import ShaderTree.Proofs.DefinitionOrder
import ShaderTree.Proofs.GrammarProgress
import ShaderTree.Proofs.LocalNumbering
import ShaderTree.Proofs.Numerals
import ShaderTree.Proofs.Progress
import ShaderTree.Proofs.Reading
import ShaderTree.Proofs.Refusal
import ShaderTree.Proofs.RoundTrip
import ShaderTree.Proofs.ShortestDecimal
import ShaderTree.Proofs.StmtReading
import ShaderTree.Proofs.StructDefinitions
import ShaderTree.Proofs.StructNames
import ShaderTree.Proofs.StructTable
import ShaderTree.Proofs.TermReading
import ShaderTree.Proofs.Violations
import ShaderTree.Stmt
import ShaderTree.Text.Alphanumeric
import ShaderTree.Text.GraphemeBase
import ShaderTree.Text.Lines
import ShaderTree.Text.Membership
import ShaderTree.Text.Position
import ShaderTree.Text.Quoted
import ShaderTree.Text.WhiteSpace
import ShaderTree.Text.WordCharacter
import ShaderTree.Ty
import ShaderTree.Variable
import ShaderTree.Proofs.BlankText
import ShaderTree.Proofs.Lookahead
import ShaderTree.Proofs.Tokens
import ShaderTree.Proofs.TokenReading
import ShaderTree.Proofs.AcceptedText
import ShaderTree.Proofs.Spacing
import ShaderTree.Proofs.ClauseText
import ShaderTree.Proofs.TextLines
import ShaderTree.Proofs.SameClauses
import ShaderTree.Proofs.Faithful
import ShaderTree.Proofs.Faults
import ShaderTree.Proofs.Completion
import ShaderTree.Proofs.ViablePrefix
import ShaderTree.Proofs.TokenText
import ShaderTree.Proofs.ErrorPlace
import ShaderTree.Proofs.LineText
import ShaderTree.Proofs.NormalText
import ShaderTree.Proofs.BraceBalance
import ShaderTree.Proofs.FileCases
import ShaderTree.Proofs.FuncTexts
import ShaderTree.Proofs.GlobalNames
import ShaderTree.Proofs.LocalScopes
import ShaderTree.Proofs.GlslLexemes
import ShaderTree.Proofs.GlslGrammar
import ShaderTree.Proofs.GlslDeclarations
import ShaderTree.Proofs.LocalNames
import ShaderTree.Proofs.GlslScopes
import ShaderTree.Proofs.GlslSentences
import ShaderTree.Proofs.Brackets
import ShaderTree.Proofs.Indentation
import ShaderTree.Proofs.AppendedFunc
import ShaderTree.Proofs.InfixReading
import ShaderTree.Proofs.Reprinting
import ShaderTree.Proofs.ParamOrder
import ShaderTree.Proofs.LineColumns
import ShaderTree.Proofs.TenDigits
import ShaderTree.Proofs.ScientificText
import ShaderTree.Proofs.SinglePrecision
import ShaderTree.Proofs.ReadingEnds
