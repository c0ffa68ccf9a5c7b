import LiquidTokens.Source

/-! Reading a template from a file, what may go wrong on the way from a path to printed tokens, and
working directories with known contents for paths to lead to. -/
namespace LiquidTokens

inductive FileError
  | notFound
  | permissionDenied
  | other (cause : String)
  deriving DecidableEq, Repr

/-- A failure after the arguments were understood. -/
inductive Failure
  | notFound (path : String)
  | permissionDenied (path : String)
  | invalidUtf8 (path : String)
  | read (path cause : String)
  | write (cause : String)
  deriving DecidableEq, Repr

namespace Failure

def message : Failure → String
  | .notFound path => s!"cannot find file '{path}'"
  | .permissionDenied path => s!"permission denied reading '{path}'"
  | .invalidUtf8 path => s!"'{path}' contains invalid UTF-8 data"
  | .read path cause => s!"error reading '{path}': {cause}"
  | .write cause => s!"error writing tokens: {cause}"

def cause? : Failure → Option String
  | .notFound _ | .permissionDenied _ | .invalidUtf8 _ => none
  | .read _ cause | .write cause => some cause

def shortWrite : Failure := .write "failed to write whole buffer"

def ofFileError (path : String) : FileError → Failure
  | .notFound => .notFound path
  | .permissionDenied => .permissionDenied path
  | .other cause => .read path cause

end Failure

def Template.read (fetch : String → Except FileError ByteArray) (path : String) :
    Except Failure String :=
  match fetch path with
  | .error e => .error (.ofFileError path e)
  | .ok bytes =>
    match String.fromUTF8? bytes with
    | some text => .ok text
    | none => .error (.invalidUtf8 path)

/-- The contents of a name: the bytes of a file, or nothing for a directory. -/
structure FileTree where
  entries : List (List String × Option ByteArray)

namespace FileTree

/-- The longest name, and the length from which a path is too long. -/
def nameLimit : Nat := 255

def pathLimit : Nat := 4096

def nulInName : FileError := .other "file name contained an unexpected NUL byte"

def notADirectory : FileError := .other "Not a directory (os error 20)"

def isADirectory : FileError := .other "Is a directory (os error 21)"

def nameTooLong : FileError := .other "File name too long (os error 36)"

def splitSlashes : List Char → List (List Char)
  | [] => [[]]
  | c :: rest =>
    if c = '/' then [] :: splitSlashes rest
    else match splitSlashes rest with
      | [] => [[c]]
      | name :: names => (c :: name) :: names

def names (path : String) : List String :=
  (splitSlashes path.toList).map String.ofList

def ofNames (files : List (String × Option ByteArray)) : FileTree :=
  ⟨files.map fun (name, contents) => ((names name).filter fun n => n ≠ "" ∧ n ≠ ".", contents)⟩

inductive Place
  | file (contents : ByteArray)
  | directory (path : List String)
  | outside

/-- What is at a path below the working directory. A directory is there if it is listed, or if
something in it is. -/
def lookup (tree : FileTree) (path : List String) : Option Place :=
  if path = [] then some (.directory [])
  else match tree.entries.find? (·.1 = path) with
    | some (_, some contents) => some (.file contents)
    | some (_, none) => some (.directory path)
    | none => if tree.entries.any (fun e => path.isPrefixOf e.1) then some (.directory path) else none

/-- Follow one name. Only a directory can be left by a name, even by an empty one. -/
def enter (tree : FileTree) (place : Place) (name : String) : Except FileError Place :=
  match place with
  | .file _ => .error notADirectory
  | .outside =>
    if name = "" ∨ name = "." ∨ name = ".." then .ok .outside
    else if nameLimit < name.utf8ByteSize then .error nameTooLong
    else .error .notFound
  | .directory path =>
    if name = "" ∨ name = "." then .ok place
    else if name = ".." then .ok (if path = [] then .outside else .directory path.dropLast)
    else if nameLimit < name.utf8ByteSize then .error nameTooLong
    else match tree.lookup (path ++ [name]) with
      | some found => .ok found
      | none => .error .notFound

/-- The bytes at a path. Of several faults the earliest on the path counts. -/
def fetch (tree : FileTree) (path : String) : Except FileError ByteArray := do
  if path.toList.contains '\x00' then throw nulInName
  if path = "" then throw .notFound
  if pathLimit ≤ path.utf8ByteSize then throw nameTooLong
  let root := if path.toList.head? = some '/' then Place.outside else .directory []
  match ← (names path).foldlM tree.enter root with
  | .file contents => pure contents
  | .directory _ | .outside => throw isADirectory

end FileTree

end LiquidTokens
