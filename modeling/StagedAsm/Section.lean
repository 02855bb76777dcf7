import StagedAsm.Symbol.Basic

/-!
# Output sections

A section collects the text of one part of the output. A line that cannot be written yet waits in
the backlog until frame sizes are announced, and lines accepted after it wait behind it. Closing a
section hands its text to the sink, which several sections may share.
-/

namespace StagedAsm

def programSection : String := "program"

def dataSection : String := "data"

def uninitialisedSection : String := "uninitialised"

def defaultSections : List String := [programSection, dataSection, uninitialisedSection]

/-- A line that waits, with the texts accepted after it. -/
structure WaitingLine where
  line : Line
  tail : List String := []
  deriving DecidableEq, Repr, Inhabited

/-- The text of one section that was not handed to its sink yet. -/
structure Section where
  sink : SinkId
  buffer : String := ""
  /-- Oldest first. -/
  backlog : List WaitingLine := []
  deriving DecidableEq, Repr, Inhabited

namespace Section

def appendToLast (text : String) : List WaitingLine → List WaitingLine
  | [] => []
  | [last] => [{ last with tail := last.tail ++ [text] }]
  | first :: second :: rest => first :: appendToLast text (second :: rest)

def linesText : List String → String
  | [] => ""
  | text :: rest => text ++ "\n" ++ linesText rest

/-- Accepts a text, behind whatever waits. -/
def accept (s : Section) (text : String) : Section :=
  match s.backlog with
  | [] => { s with buffer := s.buffer ++ text ++ "\n" }
  | backlog => { s with backlog := appendToLast text backlog }

/-- Accepts a line that waits until frame sizes are announced. -/
def defer (s : Section) (line : Line) : Section :=
  { s with backlog := s.backlog ++ [{ line }] }

def writeOut (render : Line → Except Fault (Option String)) (buffer : String) :
    List WaitingLine → String × Except Fault Unit
  | [] => (buffer, .ok ())
  | item :: rest =>
    match render item.line with
    | .ok text =>
      writeOut render (buffer ++ linesText (text.toList ++ item.tail)) rest
    | .error fault => (buffer, .error fault)

/-- Nothing waits any longer. If a line fails, it and everything behind it is gone. -/
def fire (render : Line → Except Fault (Option String)) (s : Section) :
    Section × Except Fault Unit :=
  let (buffer, outcome) := writeOut render s.buffer s.backlog
  ({ s with buffer, backlog := [] }, outcome)

/-- Fails while lines wait. -/
def close (s : Section) : Except CompileError (String × Section) :=
  match s.backlog with
  | [] => .ok (s.buffer, { s with buffer := "" })
  | backlog => .error (.linesWaiting backlog.length)

def pending (s : Section) : Nat := s.backlog.length

def bufferedBytes (s : Section) : Nat := s.buffer.utf8ByteSize

end Section

end StagedAsm
