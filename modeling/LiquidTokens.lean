import LiquidTokens.Arguments
import LiquidTokens.Boundary
import LiquidTokens.CommandLine
import LiquidTokens.Cursor
import LiquidTokens.Event
import LiquidTokens.Exhaustion
import LiquidTokens.Log
import LiquidTokens.Main
import LiquidTokens.Options
import LiquidTokens.Progress
import LiquidTokens.Proofs.Alone
import LiquidTokens.Proofs.Append
import LiquidTokens.Proofs.Calls
import LiquidTokens.Proofs.Cut
import LiquidTokens.Proofs.Grammar
import LiquidTokens.Proofs.Kinds
import LiquidTokens.Proofs.Leftmost
import LiquidTokens.Proofs.LineNumbers
import LiquidTokens.Proofs.Lines
import LiquidTokens.Proofs.Logging
import LiquidTokens.Proofs.Moves
import LiquidTokens.Proofs.Newlines
import LiquidTokens.Proofs.Numerals
import LiquidTokens.Proofs.Outcomes
import LiquidTokens.Proofs.Outline
import LiquidTokens.Proofs.Pairs
import LiquidTokens.Proofs.Printing
import LiquidTokens.Proofs.Quoting
import LiquidTokens.Proofs.Renaming
import LiquidTokens.Proofs.Reports
import LiquidTokens.Proofs.Requests
import LiquidTokens.Proofs.Restart
import LiquidTokens.Proofs.Sessions
import LiquidTokens.Proofs.Shape
import LiquidTokens.Proofs.Steps
import LiquidTokens.Proofs.Stream
import LiquidTokens.Proofs.Tiling
import LiquidTokens.Proofs.Unclosed
import LiquidTokens.Proofs.Walk
import LiquidTokens.Quoted
import LiquidTokens.Reader
import LiquidTokens.Report
import LiquidTokens.Search
import LiquidTokens.Session
import LiquidTokens.Source
import LiquidTokens.Template
import LiquidTokens.Token
import LiquidTokens.Tokenizer
