import ObjectLang.CommandLine

/-!
# The program

Reads arguments, files and lines, and writes what the library answers.
-/

open ObjectLang

/-- The refusal that an error stands for. Its number may come with a minus sign. -/
def refusal (code : UInt32) (reason : String) : ReadFault :=
  .refused (.ofCode code.toInt32.toInt.natAbs reason)

/-- The fault that an error stands for. Errors without a number come from bytes that are no
text. -/
def readFault : IO.Error → ReadFault
  | .alreadyExists _ code reason | .otherError code reason | .resourceBusy code reason
  | .resourceVanished code reason | .unsupportedOperation code reason
  | .hardwareFault code reason | .unsatisfiedConstraints code reason
  | .illegalOperation code reason | .protocolError code reason | .timeExpired code reason
  | .interrupted _ code reason | .noFileOrDirectory _ code reason
  | .invalidArgument _ code reason | .permissionDenied _ code reason
  | .resourceExhausted _ code reason | .inappropriateType _ code reason
  | .noSuchThing _ code reason => refusal code reason
  | .unexpectedEof | .userError _ => .invalidText

def readSource (path : String) : IO (Except ReadFault String) := do
  match ← (IO.FS.readBinFile path).toBaseIO with
  | .error e => return .error (readFault e)
  | .ok bytes => return decodeText bytes

/-- The bytes of the next line, its end included, after `line`. -/
partial def lineBytes (input : IO.FS.Stream) (line : ByteArray) : IO ByteArray := do
  let byte ← input.read 1
  if byte.isEmpty then return line
  let line := line ++ byte
  if byte = ⟨#[10]⟩ then return line
  lineBytes input line

def readLine : IO (Except ReadFault String) := do
  let input ← IO.getStdin
  match ← (lineBytes input .empty).toBaseIO with
  | .error e => return .error (readFault e)
  | .ok bytes => return decodeText bytes

def write (r : Reply) : IO Unit := do
  let out ← IO.getStdout
  out.putStr r.out
  out.flush
  let err ← IO.getStderr
  err.putStr r.err

/-- Holds a session that has asked for its next line. Its replies are written at once. -/
partial def converse (s : Session) : IO (Option CommandLine.Report) := do
  match ← readLine with
  | .error f => return some (CommandLine.inputReport f)
  | .ok line =>
    if line.isEmpty then return some (CommandLine.sessionReport ⟨"", ""⟩ (some s))
    match s.turn line with
    | none => return none
    | some (reply, next) =>
      write reply
      match next with
      | some next => converse next
      | none => return some (CommandLine.sessionReport ⟨"", ""⟩ none)

def session : IO (Option CommandLine.Report) := do
  let s := Session.initialIn .usual
  write ⟨s.prompt, ""⟩
  converse s

def main (args : List String) : IO UInt32 := do
  match ← CommandLine.answer .usual readSource session args with
  | some r =>
    write r.reply
    return r.code.toUInt32
  | none => return 1
