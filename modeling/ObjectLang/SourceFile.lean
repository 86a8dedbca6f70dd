import ObjectLang.Fault
import ObjectLang.Table

/-!
# Source files

A file is found by its path, which is followed name by name, and its content
is the text of a program.
-/

namespace ObjectLang

inductive Refusal where
  | notFound
  | notAllowed
  | notDirectory
  | isDirectory
  | nameTooLong
  /-- A rarer reason, by its number and its text. -/
  | other (code : Nat) (reason : String)
  deriving DecidableEq, Repr

namespace Refusal

/-- The number of the reason, which tells it from all others. -/
def code : Refusal → Nat
  | notFound => 2
  | notAllowed => 13
  | notDirectory => 20
  | isDirectory => 21
  | nameTooLong => 36
  | other code _ => code

def reason : Refusal → String
  | notFound => "No such file or directory"
  | notAllowed => "Permission denied"
  | notDirectory => "Not a directory"
  | isDirectory => "Is a directory"
  | nameTooLong => "File name too long"
  | other _ reason => reason

/-- The refusal with a number; `reason` is its text unless the number is a known one. -/
def ofCode (code : Nat) (reason : String) : Refusal :=
  ([notFound, notAllowed, notDirectory, isDirectory, nameTooLong].find? (·.code = code)).getD
    (other code reason)

end Refusal

inductive ReadFault where
  | refused (r : Refusal)
  | invalidText
  deriving DecidableEq, Repr

def ReadFault.message : ReadFault → String
  | refused r => r.reason ++ " (os error " ++ toString r.code ++ ")"
  | invalidText => (Fault.stream .invalidText).message

/-! ## Paths -/

def pathLimit : Nat := 4095

/-- The largest size in bytes of one name in a path. -/
def nameLimit : Nat := 255

/-- Whether a name in a path stands for a directory wherever the path is followed from. -/
def isDirectoryName (n : String) : Bool :=
  n = "" || n = "." || n = ".."

/-- Why there is no file at a path none of whose names exist. The first name that is looked up
decides; the names after it are not reached. -/
def missingFile (path : String) : Refusal :=
  if path.isEmpty then .notFound
  else if pathLimit < path.utf8ByteSize then .nameTooLong
  else
    match (path.splitOn "/").find? fun n => !isDirectoryName n with
    | none => .isDirectory
    | some n => if nameLimit < n.utf8ByteSize then .nameTooLong else .notFound

/-! ## Texts -/

def decodeText (bytes : ByteArray) : Except ReadFault String :=
  match String.fromUTF8? bytes with
  | some text => .ok text
  | none => .error .invalidText

/-- Reads one of the files of a table, which binds their paths to their text. -/
def readFrom (files : Table String) (path : String) : Except ReadFault String :=
  match files.get? path with
  | some text => .ok text
  | none => .error (.refused (missingFile path))

end ObjectLang
