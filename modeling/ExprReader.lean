import ExprReader.Text.Bytes
import ExprReader.Text.Escape
import ExprReader.Text.Lossy
import ExprReader.Text.Quoted
import ExprReader.Number.Binary64
import ExprReader.Source.Basic
import ExprReader.Token.Scan
import ExprReader.Expr.Parse
import ExprReader.Diagnostic.Display
import ExprReader.FileTree
import ExprReader.CommandLine
import ExprReader.Main
import ExprReader.Proofs.Text.Boundary
import ExprReader.Proofs.Text.Tiling
import ExprReader.Proofs.Source.Lines
import ExprReader.Proofs.Source.Input
import ExprReader.Proofs.Token.Classes
import ExprReader.Proofs.Token.LongestMatch
import ExprReader.Proofs.Token.Spans
import ExprReader.Proofs.Token.Tiling
import ExprReader.Proofs.Expr.Precedence
import ExprReader.Proofs.Expr.Cursor
import ExprReader.Proofs.Expr.Reads
import ExprReader.Proofs.Expr.Grammar
import ExprReader.Proofs.Expr.Recovery
import ExprReader.Proofs.Expr.Spans
import ExprReader.Proofs.Expr.Faultless
import ExprReader.Proofs.Console.Writes
import ExprReader.Proofs.Console.Limits
import ExprReader.Proofs.Diagnostic.Shown
import ExprReader.Proofs.Session.Answer
import ExprReader.Proofs.Session.Prompt
import ExprReader.Proofs.Session.Limits
import ExprReader.Proofs.Session.Verdict
import ExprReader.Proofs.Token.LineFeed
import ExprReader.Proofs.Token.WrittenOut
import ExprReader.Proofs.Text.Decode
import ExprReader.Proofs.Text.Unescape
import ExprReader.Proofs.Source.Index
import ExprReader.Proofs.Source.Lookup
import ExprReader.Proofs.Expr.Runs
import ExprReader.Proofs.Expr.Accounts
import ExprReader.Proofs.Expr.Simulation
import ExprReader.Proofs.Expr.Layout
import ExprReader.Proofs.Expr.Lookahead
import ExprReader.Proofs.Session.Listing
import ExprReader.Proofs.Diagnostic.Block
import ExprReader.Proofs.Diagnostic.Outcome
import ExprReader.Proofs.Diagnostic.Underline
import ExprReader.Proofs.Session.Drawn
import ExprReader.Proofs.Session.Broken
import ExprReader.Proofs.Text.Lossy
import ExprReader.Proofs.Diagnostic.Order
import ExprReader.Proofs.Expr.Statements
import ExprReader.Proofs.Expr.Rendered
import ExprReader.Proofs.Session.LineByLine
import ExprReader.Proofs.Number.Grammar
import ExprReader.Proofs.Expr.EndOfText
import ExprReader.Proofs.Expr.Numbers
import ExprReader.Proofs.Source.Endings
