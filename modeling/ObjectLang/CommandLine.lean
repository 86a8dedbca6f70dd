import ObjectLang.Session
import ObjectLang.SourceFile

/-!
# The command line

Arguments are a program, or with `--file` the path of one; without either,
commands are read from the input in a session.
-/

namespace ObjectLang.CommandLine

structure Options where
  /-- The contents are a path. -/
  file : Bool
  /-- The value of the program is printed unless it is `nil`. -/
  printResult : Bool
  contents : Option String

/-- Sets a flag, which must not have been set before. -/
def setFlag (o : Options) (c : Char) : Option Options :=
  if c = 'f' ∧ !o.file then some { o with file := true }
  else if c = 'p' ∧ !o.printResult then some { o with printResult := true }
  else none

def setContents (o : Options) (text : String) : Option Options :=
  if o.contents.isNone then some { o with contents := some text } else none

/-- Takes one argument in front of a `--`. -/
def takeArg (o : Options) (arg : String) : Option Options :=
  match arg.toList with
  | ['-'] => setContents o arg
  | '-' :: '-' :: _ =>
    if arg = "--file" then setFlag o 'f'
    else if arg = "--print-result" then setFlag o 'p'
    else none
  | '-' :: flags => flags.foldlM setFlag o
  | _ => setContents o arg

/-- The options that arguments stand for, if they are valid. Behind a `--` there are contents
only. -/
def parseFrom (o : Options) : List String → Option Options
  | [] => some o
  | arg :: rest =>
    if arg = "--" then rest.foldlM setContents o
    else do
      let o ← takeArg o arg
      parseFrom o rest

def parse (args : List String) : Option Options :=
  parseFrom ⟨false, false, none⟩ args

/-! ## Reports -/

structure Report where
  code : UInt8
  reply : Reply
  deriving DecidableEq, Repr

/-- What is left of a crash: what was printed before. -/
def crashReport (reply : Reply) : Report := ⟨101, reply⟩

/-- What is printed of the value of a program. -/
def resultText (printResult : Bool) (m : Machine) (v : Value) : String :=
  if printResult && !v.isNil then m.store.inspect v ++ "\n" else ""

def runProgram (r : Runtime) (printResult : Bool) (source : String) : Option Report :=
  match (Machine.initialIn r).execute source with
  | .value v m =>
    let (printed, m) := m.takeOutput
    some ⟨0, ⟨printed ++ resultText printResult m v, ""⟩⟩
  | .failure e m => some ⟨1, ⟨m.takeOutput.1, e.report⟩⟩
  | .crash s => some (crashReport ⟨s.output.text, ""⟩)
  | .endless => none

def fileReport (path : String) (f : ReadFault) : Report :=
  ⟨1, ⟨"", "Failed to read the input file '" ++ path ++ "': " ++ f.message ++ "\n"⟩⟩

def inputReport (f : ReadFault) : Report :=
  ⟨1, ⟨"", "Failed to read input: " ++ f.message ++ "\n"⟩⟩

/-- The end of a session behind what it has replied. -/
def sessionReport (reply : Reply) (final : Option Session) : Report :=
  if final.isSome then ⟨0, reply⟩ else crashReport reply

def runSession (r : Runtime) (input : String) : Option Report := do
  let (reply, final) ← (Session.initialIn r).feedAll (splitLines input)
  some (sessionReport reply final)

def usageReport : Report := ⟨2, ⟨"", "error: invalid arguments\n"⟩⟩

/-! ## The command -/

/-- Answers arguments, given a way to read a file and to hold a session. -/
def answer {m : Type → Type} [Monad m] (r : Runtime)
    (readFile : String → m (Except ReadFault String)) (session : m (Option Report))
    (args : List String) : m (Option Report) :=
  match parse args with
  | none => pure (some usageReport)
  | some o =>
    match o.contents with
    | none => session
    | some contents =>
      if o.file then do
        match ← readFile contents with
        | .ok source => pure (runProgram r o.printResult source)
        | .error f => pure (some (fileReport contents f))
      else pure (runProgram r o.printResult contents)

/-- Runs the command, with the files that `files` binds to their paths. -/
def runIn (r : Runtime) (files : Table String) (args : List String) (input : String) :
    Option Report :=
  answer (m := Id) r (readFrom files) (runSession r input) args

def run (files : Table String) (args : List String) (input : String) : Option Report :=
  runIn .usual files args input

end ObjectLang.CommandLine
