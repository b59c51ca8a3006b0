import CanvasScript.CommandLine.Arguments
import CanvasScript.CommandLine.FileTree
import CanvasScript.CommandLine.Program
import CanvasScript.Decimal.Layout
import CanvasScript.Decimal.Numeral
import CanvasScript.Expr.Evaluation
import CanvasScript.Literal.Aggregate
import CanvasScript.Literal.Reader
import CanvasScript.Main
import CanvasScript.Number.Arithmetic
import CanvasScript.Proofs.Accounting
import CanvasScript.Proofs.ArgumentGrammar
import CanvasScript.Proofs.BindingDispatch
import CanvasScript.Proofs.BindingForm
import CanvasScript.Proofs.BoundNames
import CanvasScript.Proofs.CheckedGathering
import CanvasScript.Proofs.ClearedScreen
import CanvasScript.Proofs.ClosingLine
import CanvasScript.Proofs.ClosingStack
import CanvasScript.Proofs.ClosingText
import CanvasScript.Proofs.ColorSpelling
import CanvasScript.Proofs.CommandFrames
import CanvasScript.Proofs.CommandLines
import CanvasScript.Proofs.ComparisonLaws
import CanvasScript.Proofs.Concatenation
import CanvasScript.Proofs.DecimalLiterals
import CanvasScript.Proofs.DecimalReading
import CanvasScript.Proofs.DrawnText
import CanvasScript.Proofs.DumpText
import CanvasScript.Proofs.EqualValues
import CanvasScript.Proofs.ExitStatus
import CanvasScript.Proofs.FailureIsolation
import CanvasScript.Proofs.Gathering
import CanvasScript.Proofs.Grammar
import CanvasScript.Proofs.InsertionOrder
import CanvasScript.Proofs.JoinedLines
import CanvasScript.Proofs.LineBreaks
import CanvasScript.Proofs.LineEffect
import CanvasScript.Proofs.LineFeeds
import CanvasScript.Proofs.LiteralReading
import CanvasScript.Proofs.NumberRoundTrip
import CanvasScript.Proofs.NumberText
import CanvasScript.Proofs.NumeralGrammar
import CanvasScript.Proofs.ObjectText
import CanvasScript.Proofs.Paging
import CanvasScript.Proofs.ParserGrammar
import CanvasScript.Proofs.Printing
import CanvasScript.Proofs.QuotedStrings
import CanvasScript.Proofs.Reading
import CanvasScript.Proofs.Replay
import CanvasScript.Proofs.Rounding
import CanvasScript.Proofs.RowBorders
import CanvasScript.Proofs.ScriptLines
import CanvasScript.Proofs.SettingFields
import CanvasScript.Proofs.SettingForms
import CanvasScript.Proofs.SettingLines
import CanvasScript.Proofs.SourceLayout
import CanvasScript.Proofs.StackMoves
import CanvasScript.Proofs.StoreShape
import CanvasScript.Proofs.Substitution
import CanvasScript.Proofs.TargetIsolation
import CanvasScript.Proofs.TerminalRows
import CanvasScript.Proofs.TerminalSessions
import CanvasScript.Proofs.TerminalTrace
import CanvasScript.Proofs.TextPieces
import CanvasScript.Proofs.TokenSpacing
import CanvasScript.Proofs.Unambiguity
import CanvasScript.Proofs.UsableSettings
import CanvasScript.Proofs.WholeNumbers
import CanvasScript.Script.Interpreter
import CanvasScript.Settings
import CanvasScript.Surface.Dump
import CanvasScript.Surface.Terminal
