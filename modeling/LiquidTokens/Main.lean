import LiquidTokens.CommandLine

/-! The program: it reads one file at most, and prints what the run decides. -/
namespace LiquidTokens

def systemCause : IO.Error → String
  | .alreadyExists _ code details | .otherError code details | .resourceBusy code details
  | .resourceVanished code details | .unsupportedOperation code details
  | .hardwareFault code details | .unsatisfiedConstraints code details
  | .illegalOperation code details | .protocolError code details | .timeExpired code details
  | .interrupted _ code details | .noFileOrDirectory _ code details
  | .invalidArgument _ code details | .permissionDenied _ code details
  | .resourceExhausted _ code details | .inappropriateType _ code details
  | .noSuchThing _ code details => s!"{details} (os error {code})"
  | e => toString e

def fileError : IO.Error → FileError
  | .noFileOrDirectory .. => .notFound
  | .permissionDenied .. => .permissionDenied
  | e => .other (systemCause e)

def fetchFile (path : String) : IO (Except FileError ByteArray) := do
  try
    let handle ← IO.FS.Handle.mk path .read
    pure (.ok (← handle.readBinToEnd))
  catch e =>
    pure (.error (fileError e))

end LiquidTokens

open LiquidTokens in
def main (arguments : List String) : IO UInt32 := do
  let argv := ("liq" :: arguments).map String.toByteArray
  let found ← match CommandLine.path? argv with
    | some path => fetchFile path
    | none => pure (.error .notFound)
  let outcome := CommandLine.run (fun _ => found) ⟨.plain, ← IO.getEnv "RUST_LOG"⟩ argv
  (← IO.getStderr).putStr outcome.stderr
  (← IO.getStdout).putStr outcome.stdout
  pure outcome.code.toUInt32
