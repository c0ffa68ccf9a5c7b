import LiquidTokens.Log
import LiquidTokens.Report
import LiquidTokens.Template

/-! The command line as a function: arguments, files and a log in, an outcome out. -/
namespace LiquidTokens
namespace CommandLine

inductive Command
  | help
  | lex (arguments : List String)
  | unknown (name : String)
  deriving DecidableEq, Repr

def Command.ofArguments : List String → Command
  | [] => .help
  | name :: rest =>
    if name = "lex" then .lex rest
    else if name = "help" ∨ name = "--help" ∨ name = "-h" then .help
    else .unknown name

structure Outcome where
  code : UInt8
  stdout : String
  stderr : String
  deriving DecidableEq, Repr

def usageLines : List String :=
  ["Liquid lexer",
   "",
   "Usage: liq <command> [options]",
   "",
   "Commands:",
   "  lex <file>    Print the token stream of a template",
   "  help          Show this message",
   "",
   "Options for lex:",
   "  -l, --line-mode       One token per line (inline tag body)",
   "  -n, --line-numbers    Report the line each token starts on",
   "  --start-line=N        Start counting at line N (implies --line-numbers)",
   "",
   "Set RUST_LOG=liq_lexer=trace to log every emitted token."]

def usage : String :=
  String.join (usageLines.map fun l => s!"{l}\n")

def lexUsage : String :=
  "Usage: liq lex <file> [--line-mode] [--line-numbers] [--start-line=N]\n"

def succeed (stdout : String) : Outcome := ⟨0, stdout, ""⟩

def fail (stderr : String) : Outcome := ⟨1, "", stderr⟩

/-- The arguments as texts. One that is none is a fault, and no other is looked at. -/
def decode (argv : List ByteArray) : Checked (List String) :=
  argv.mapM fun argument =>
    match String.fromUTF8? argument with
    | some text => pure text
    | none => throw .argumentNotUnicode

/-- Print the tokens of a file. The events come first, for the list is complete before it is shown. -/
def lex (fetch : String → Except FileError ByteArray) (log : Log) (request : LexRequest) :
    Checked Outcome := do
  match Template.read fetch request.path with
  | .error e => pure (fail s!"error: {e.message}\n")
  | .ok text =>
    let es ← tokens text request.options
    pure ⟨0, Report.render request.path es, log.render (es.flatMap Emission.events)⟩

def perform (fetch : String → Except FileError ByteArray) (log : Log) :
    Command → Checked Outcome
  | .help => pure (succeed usage)
  | .unknown name => pure (fail s!"Unknown command: {name}\n\n{usage}")
  | .lex rest =>
    match LexRequest.ofArguments rest with
    | .error e => pure (fail s!"error: {e.message}\n{lexUsage}")
    | .ok request => lex fetch log request

/-- How a run ends that meets a fault. Of the report only the message is kept, not where it arose. -/
def panic (fault : Fault) : Outcome :=
  let message := fault.message?.getD "byte index is not a char boundary"
  ⟨101, "", s!"thread 'main' panicked:\n{message}\n"⟩

/-- A run of the program, whose own name is the first argument. -/
def run (fetch : String → Except FileError ByteArray) (log : Log) (argv : List ByteArray) : Outcome :=
  match decode argv >>= fun arguments => perform fetch log (.ofArguments arguments.tail) with
  | .ok outcome => outcome
  | .error fault => panic fault

/-- The file that a run looks at, if any. -/
def path? (argv : List ByteArray) : Option String :=
  match Command.ofArguments <$> List.tail <$> decode argv with
  | .ok (.lex rest) => (LexRequest.ofArguments rest).toOption.map LexRequest.path
  | .ok .help | .ok (.unknown _) | .error _ => none

end CommandLine
end LiquidTokens
