import ObjectLang.Machine

/-!
# Interactive sessions

A session reads lines and runs them as soon as they make up whole commands.
Lines that end inside an unfinished construct are kept and continued. Errors are
reported, and only a crash ends the session before its input does.
-/

namespace ObjectLang

def Failure.report : Failure → String
  | source e => "Error on line " ++ toString e.line ++ ": " ++ e.fault.message ++ "\n"
  | run f => "Error: " ++ f.message ++ "\n"

structure Reply where
  out : String
  err : String
  deriving DecidableEq, Repr

instance : Append Reply := ⟨fun a b => ⟨a.out ++ b.out, a.err ++ b.err⟩⟩

structure Session where
  machine : Machine
  /-- The lines of the command that is not finished yet. -/
  pending : String

namespace Session

def initialIn (r : Runtime) : Session := ⟨.initialIn r, ""⟩

def prompt (s : Session) : String :=
  if s.pending.isEmpty then "> " else ".. "

/-- Takes one line of input, its end included. There is no reply while the command is
unfinished. A crash ends the session, and a run without end leaves nothing to say. -/
def feed (s : Session) (line : String) : Option (Reply × Option Session) :=
  let source := s.pending ++ line
  match s.machine.execute source with
  | .value v m =>
    let (printed, m) := m.takeOutput
    some (⟨printed ++ "=> " ++ m.store.inspect v ++ "\n", ""⟩, some ⟨m, ""⟩)
  | .failure e m =>
    let (printed, m) := m.takeOutput
    match e with
    | .source e =>
      if e.isIncomplete then some (⟨printed, ""⟩, some ⟨m, source⟩)
      else some (⟨printed, (Failure.source e).report⟩, some ⟨m, ""⟩)
    | .run f => some (⟨printed, (Failure.run f).report⟩, some ⟨m, ""⟩)
  | .crash s => some (⟨s.output.text, ""⟩, none)
  | .endless => none

/-- Takes one line, and asks for the next one if the session goes on. -/
def turn (s : Session) (line : String) : Option (Reply × Option Session) :=
  (s.feed line).map fun (reply, next) =>
    (next.elim reply fun next => reply ++ ⟨next.prompt, ""⟩, next)

/-- Takes turns until there are no lines left, or until the session ends. -/
def turns (s : Session) : List String → Option (Reply × Option Session)
  | [] => some (⟨"", ""⟩, some s)
  | line :: rest => do
    let (reply, next) ← s.turn line
    match next with
    | none => some (reply, none)
    | some next =>
      let (replies, final) ← next.turns rest
      some (reply ++ replies, final)

/-- Feeds lines until there are none left. The prompt comes before each line and before the end
of the input. -/
def feedAll (s : Session) (lines : List String) : Option (Reply × Option Session) :=
  (s.turns lines).map fun (replies, final) => (⟨s.prompt, ""⟩ ++ replies, final)

end Session

/-- The lines of a text, each with its end; the last line may lack it. -/
def charLines : List Char → List (List Char)
  | [] => []
  | c :: rest =>
    if c = '\n' then [c] :: charLines rest
    else
      match charLines rest with
      | [] => [[c]]
      | line :: lines => (c :: line) :: lines

def splitLines (text : String) : List String :=
  (charLines text.toList).map String.ofList

end ObjectLang
