import LiquidTokens.Options
import LiquidTokens.Token

/-! What scanning reports about itself, apart from its tokens, and the errors that a reader of tokens
raises at the current line. -/
namespace LiquidTokens

structure SyntaxError where
  message : String
  line : LineNumber
  deriving DecidableEq, Repr

namespace SyntaxError

def display (e : SyntaxError) : String :=
  match e.line with
  | none => s!"Liquid syntax error: {e.message}"
  | some k => s!"Liquid syntax error (line {k}): {e.message}"

instance : ToString SyntaxError := ⟨display⟩

end SyntaxError

inductive Level
  | error
  | warn
  | info
  | debug
  | trace
  deriving DecidableEq, Repr

namespace Level

def name : Level → String
  | .error => "ERROR"
  | .warn => "WARN"
  | .info => "INFO"
  | .debug => "DEBUG"
  | .trace => "TRACE"

def verbosity : Level → Nat
  | .error => 0
  | .warn => 1
  | .info => 2
  | .debug => 3
  | .trace => 4

end Level

/-- A report of one step. The line is the one after the token. -/
inductive Event
  | markupToken (kind : Kind) (span : Span) (line : LineNumber)
  | lineToken (span : Span) (line : LineNumber)
  | unterminatedTag (start : Nat)
  | unterminatedVariable (start dropped : Nat)
  | syntaxError (error : SyntaxError)
  deriving DecidableEq, Repr

namespace Event

/-- Tokens are traced. What is out of order shows earlier. -/
def level : Event → Level
  | .markupToken .. | .lineToken .. => .trace
  | .unterminatedTag _ | .unterminatedVariable .. | .syntaxError _ => .debug

def target : Event → String
  | .markupToken .. | .unterminatedTag _ | .unterminatedVariable .. =>
    "liq_lexer::tokenizer::markup"
  | .lineToken .. => "liq_lexer::tokenizer::line"
  | .syntaxError _ => "liq_lexer::tokenizer"

def message : Event → String
  | .markupToken .. => "markup token"
  | .lineToken .. => "line token"
  | .unterminatedTag _ => "unterminated tag"
  | .unterminatedVariable .. => "unterminated variable"
  | .syntaxError _ => "syntax error raised"

def fields : Event → List (String × String)
  | .markupToken kind span line =>
    [("kind", kind.name), ("span", toString span), ("line", line.describe)]
  | .lineToken span line => [("span", toString span), ("line", line.describe)]
  | .unterminatedTag start => [("start", toString start)]
  | .unterminatedVariable start dropped =>
    [("start", toString start), ("dropped", toString dropped)]
  | .syntaxError e => [("line", e.line.describe), ("message", e.message)]

end Event

structure Record where
  level : Level
  target : String
  message : String
  fields : List (String × String)
  deriving DecidableEq, Repr

def Record.shownFields (r : Record) : String :=
  String.join (r.fields.map fun f => ", " ++ f.1 ++ "=" ++ f.2)

def Event.record (e : Event) : Record :=
  ⟨e.level, e.target, e.message, e.fields⟩

end LiquidTokens
