import MiniLisp.Arity
import MiniLisp.Console
import MiniLisp.Depth
import MiniLisp.Eval
import MiniLisp.EvalError
import MiniLisp.Evaluator
import MiniLisp.Form
import MiniLisp.Form.Descent
import MiniLisp.Form.Parser
import MiniLisp.Form.Printer
import MiniLisp.Host
import MiniLisp.Interpret
import MiniLisp.Keyword
import MiniLisp.Main
import MiniLisp.Numeric.Decimal
import MiniLisp.Numeric.Double
import MiniLisp.Numeric.Rounding
import MiniLisp.Operation
import MiniLisp.Operation.Calculate
import MiniLisp.Primitive
import MiniLisp.Primitive.Call
import MiniLisp.Proofs.Acceptance
import MiniLisp.Proofs.ArithmeticReading
import MiniLisp.Proofs.Batches
import MiniLisp.Proofs.BufferedStreams
import MiniLisp.Proofs.Calculation
import MiniLisp.Proofs.CompiledShapes
import MiniLisp.Proofs.DepthLimit
import MiniLisp.Proofs.Framing
import MiniLisp.Proofs.Grammar
import MiniLisp.Proofs.HostStack
import MiniLisp.Proofs.LawfulRuns
import MiniLisp.Proofs.LawfulTexts
import MiniLisp.Proofs.Laws
import MiniLisp.Proofs.LazyReading
import MiniLisp.Proofs.Lexemes
import MiniLisp.Proofs.LexicalGrammar
import MiniLisp.Proofs.Natives
import MiniLisp.Proofs.NearestDouble
import MiniLisp.Proofs.Observation
import MiniLisp.Proofs.Partition
import MiniLisp.Proofs.PiecewiseRuns
import MiniLisp.Proofs.PlacedReading
import MiniLisp.Proofs.ReadBack
import MiniLisp.Proofs.Respelling
import MiniLisp.Proofs.Runs
import MiniLisp.Proofs.Separation
import MiniLisp.Proofs.Sessions
import MiniLisp.Proofs.ShortestDecimal
import MiniLisp.Proofs.SingleLines
import MiniLisp.Proofs.Splitting
import MiniLisp.Proofs.TwoCalls
import MiniLisp.Proofs.TwoRuns
import MiniLisp.Proofs.TwoStores
import MiniLisp.Repl
import MiniLisp.Script.Emit
import MiniLisp.Script.EmitError
import MiniLisp.Script.Literal
import MiniLisp.Script.Name
import MiniLisp.Script.Operator
import MiniLisp.Settings
import MiniLisp.Store
import MiniLisp.Text.Blank
import MiniLisp.Text.Capital
import MiniLisp.Text.DecimalDigit
import MiniLisp.Text.Escape
import MiniLisp.Text.Integer
import MiniLisp.Text.Lines
import MiniLisp.Text.Printable
import MiniLisp.Text.Quoted
import MiniLisp.Text.Ranges
import MiniLisp.Token
import MiniLisp.Token.Buffer
import MiniLisp.Token.Lexer
import MiniLisp.Token.Stream
import MiniLisp.Value
import MiniLisp.Value.Equality
import MiniLisp.Value.Printer
import MiniLisp.Proofs.ViewedStores
import MiniLisp.Proofs.ViewedRuns
import MiniLisp.Proofs.SessionHeap
import MiniLisp.Proofs.UnusedBindings
import MiniLisp.Proofs.Brackets
import MiniLisp.Proofs.CompiledText
import MiniLisp.Proofs.RepeatedQueries
import MiniLisp.Proofs.ZeroSigns
import MiniLisp.Proofs.PrintedNumbers
import MiniLisp.Proofs.QuotedValues
import MiniLisp.Proofs.ClosureStock
import MiniLisp.Proofs.DepthBudget
import MiniLisp.Proofs.EchoedValues
import MiniLisp.Proofs.EchoedRuns
import MiniLisp.Proofs.QuoteSpelling
import MiniLisp.Proofs.ClosureText
import MiniLisp.Proofs.EscapedText
import MiniLisp.Proofs.EqualValues
import MiniLisp.Proofs.NativeOutcomes
import MiniLisp.Proofs.Respacing
import MiniLisp.Proofs.WrittenForms
import MiniLisp.Proofs.ScriptNames
import MiniLisp.Proofs.StreamCursor
import MiniLisp.Proofs.ScriptLogs
import MiniLisp.Proofs.Transcripts
import MiniLisp.Proofs.QuotedData
import MiniLisp.Proofs.FrameHistory
