import LiquidTokens.Options

/-! What may stand behind the command that prints tokens: one path, and settings in any order, among them
a first line in decimal digits. -/
namespace LiquidTokens

inductive NumeralError
  | empty
  | invalidDigit
  | tooLarge
  deriving DecidableEq, Repr

namespace NumeralError

def message : NumeralError → String
  | .empty => "cannot parse integer from empty string"
  | .invalidDigit => "invalid digit found in string"
  | .tooLarge => "number too large to fit in target type"

end NumeralError

namespace Numeral

def digit? (c : Char) : Option Nat :=
  if '0' ≤ c ∧ c ≤ '9' then some (c.toNat - 48) else none

/-- Read digits from the left behind the value so far. The first character that is no digit, or that
makes the value too large, is to blame. -/
def readDigits (value : Nat) : List Char → Except NumeralError Nat
  | [] => .ok value
  | c :: rest =>
    match digit? c with
    | none => .error .invalidDigit
    | some d =>
      if UInt32.size ≤ 10 * value + d then .error .tooLarge else readDigits (10 * value + d) rest

/-- The digits of a numeral, behind at most one plus sign. A sign alone is no digit. -/
def digits : List Char → List Char
  | '+' :: c :: rest => c :: rest
  | cs => cs

def read (s : String) : Except NumeralError UInt32 :=
  if s.toList = [] then .error .empty
  else UInt32.ofNat <$> readDigits 0 (digits s.toList)

end Numeral

structure LexRequest where
  path : String
  options : Options
  deriving DecidableEq, Repr, Inhabited

inductive ArgumentError
  | badFirstLine (value : String) (cause : NumeralError)
  | unknownOption (argument : String)
  | unexpected (argument : String)
  | missingPath
  deriving DecidableEq, Repr

namespace ArgumentError

def message : ArgumentError → String
  | .badFirstLine value cause => s!"invalid --start-line value '{value}': {cause.message}"
  | .unknownOption argument => s!"unknown option '{argument}'"
  | .unexpected argument => s!"unexpected argument '{argument}'"
  | .missingPath => "missing file path"

end ArgumentError

/-- One argument by its form. Whatever starts with a dash and is no option is unknown. -/
inductive Argument
  | setting (setting : Options.Setting)
  | firstLine (value : String)
  | unknown
  | path
  deriving DecidableEq, Repr

namespace Argument

def firstLineFlag : List Char := "--start-line=".toList

def ofString (s : String) : Argument :=
  if s = "--line-mode" ∨ s = "-l" then .setting (.mode .line)
  else if s = "--line-numbers" ∨ s = "-n" then .setting (.numbered true)
  else match firstLineFlag.isPrefixOf? s.toList with
    | some value => .firstLine (String.ofList value)
    | none => if s.toList.head? = some '-' then .unknown else .path

end Argument

namespace LexRequest

def read (path? : Option String) (options : Options) : List String → Except ArgumentError LexRequest
  | [] =>
    match path? with
    | some path => .ok ⟨path, options⟩
    | none => .error .missingPath
  | argument :: rest =>
    match Argument.ofString argument with
    | .setting setting => read path? (options.set setting) rest
    | .firstLine value =>
      match Numeral.read value with
      | .ok line => read path? (options.set (.firstLine line)) rest
      | .error cause => .error (.badFirstLine value cause)
    | .unknown => .error (.unknownOption argument)
    | .path =>
      match path? with
      | none => read (some argument) options rest
      | some _ => .error (.unexpected argument)

def ofArguments (arguments : List String) : Except ArgumentError LexRequest :=
  read none {} arguments

end LexRequest

end LiquidTokens
