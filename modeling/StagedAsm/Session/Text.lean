import StagedAsm.Line.Spacing
import StagedAsm.Session.State

/-!
# Texts of symbols

Every symbol has a text for messages. Some have a text in a line of output as well, which may not be
known yet, may be refused, or may drop the line.
-/

namespace StagedAsm

namespace Session

def instanceSize (s : Session) (t : TypeSymbol) : Except CompileError UInt32 :=
  match (s.typeInfo t).instanceSize with
  | some size => .ok size
  | none => .error (.layoutUnknown t.name)

def valueSize (s : Session) (t : TypeSymbol) : Except CompileError UInt32 :=
  if t.size.isDefined then .ok t.size.bytes else s.instanceSize t

def valueTypeOf (s : Session) (t : TypeSymbol) : Except CompileError ValueType :=
  (s.valueSize t).map fun bytes => { size := t.size, bytes, type := some t }

/-- What a settled placeholder stands for; every other symbol is itself. -/
def settled (s : Session) (symbol : Symbol) : Symbol :=
  match symbol with
  | .placeholder id => (s.placeholder id).result?.getD symbol
  | _ => symbol

/-- Follows placeholders to what they stand for, at most `fuel` times. -/
def follow (s : Session) : Nat → Symbol → Symbol
  | 0, symbol => symbol
  | fuel + 1, symbol =>
    match symbol with
    | .placeholder id =>
      match (s.placeholder id).result? with
      | some result => follow s fuel result
      | none => symbol
    | _ => symbol

/-- A chain that visits no placeholder twice is not longer than there are placeholders. -/
def denoted (s : Session) (symbol : Symbol) : Symbol := s.follow s.placeholders.size symbol

def register? (s : Session) : Symbol → Option Register
  | .register r => some r
  | .registerAlias id => some (s.aliasRegister id)
  | _ => none

/-! ## Messages -/

def symbolText (s : Session) : Symbol → String
  | .constant text _ => text
  | .slot _ offset _ => s!"[stack {offset}]"
  | .register r => r.name
  | .registerAlias id => (s.aliasRegister id).name
  | .function label _ => label
  | .type t => t.name
  | .placeholder id => (s.placeholder id).text
  | .template id => (s.template id).name
  | .deferred _ _ => "<deferred>"

def segmentText (s : Session) (segment : Segment) : String :=
  if segment.isTemplated then
    segment.name ++ "<" ++ String.intercalate ", " (segment.arguments.map s.symbolText) ++ ">"
  else segment.name

def pathText (s : Session) (path : Path) : String :=
  String.intercalate "." (path.map s.segmentText)

def typeFormText (s : Session) : TypeForm → String
  | .sized size => size.text
  | .block bytes => s!"{bytes} bytes"
  | .named path => s.pathText path
  | .value path => "value " ++ s.pathText path
  | .reference path => "$" ++ s.pathText path

def typeRefText (s : Session) (id : TypeRefId) : String := s.typeFormText (s.typeRef id).form

def applicationText (s : Session) (template : String) (arguments : List Symbol) : String :=
  template ++ "<" ++ String.intercalate ", " (arguments.map s.symbolText) ++ ">"

/-! ## Lines -/

def deferredText (s : Session) : DeferredText → Except CompileError (Option String)
  | .absent => .ok none
  | .text text => .ok (some text)
  | .cell name => .ok ((s.cells.get? name).join)
  | .failing e => .error e
  | .frameAdjustment frame instruction inPrologue => do
    let size ← (s.tree.frame frame).finalSize
    let adjustment := offsetOfBytes size - Frame.returnAddress
    if adjustment > 0 then return some s!"{instruction} rsp, {adjustment}"
    else if adjustment = 0 then return none
    else if inPrologue then .error .negativeFrame
    else .error (.returnFromNegativeFrame adjustment)

/-- The address of a value on a frame, relative to the stack pointer. -/
def slotAddress (s : Session) (frame : FrameId) (offset : Int) : Except Fault String := do
  let size ← (s.tree.frame frame).finalSize.mapError .error
  let offset ← addOffset offset (offsetOfBytes size)
  return if offset ≥ 0 then s!"rsp + {offset}" else s!"rsp - {offset.natAbs}"

/-- No text drops the line. -/
def render (s : Session) (symbol : Symbol) : Except Fault (Option String) :=
  match s.denoted symbol with
  | .constant text _ => .ok (some text)
  | .slot frame offset _ => (s.slotAddress frame offset).map some
  | .register r => .ok (some r.name)
  | .registerAlias id => .ok (some (s.aliasRegister id).name)
  | .function label _ => .ok (some label)
  | .deferred _ text => (s.deferredText text).mapError .error
  | .placeholder id => .error (.error (.renderedUnresolved (s.placeholder id).text))
  | .type t => .error (.error (.typeAsOperand t.name))
  | .template id => .error (.error (.templateAsOperand (s.template id).name))

/-- The first symbol that drops the line ends the search. -/
def renderAll (s : Session) : List Symbol → Except Fault (Option (List String))
  | [] => .ok (some [])
  | symbol :: rest =>
    match s.render symbol with
    | .ok (some text) =>
      match renderAll s rest with
      | .ok (some texts) => .ok (some (text :: texts))
      | other => other
    | .ok none => .ok none
    | .error fault => .error fault

def renderLine (s : Session) (line : Line) : Except Fault (Option String) :=
  (s.renderAll line).map fun texts => texts.map joinTokens

/-- The output of a line if it has one, else the texts of its symbols. -/
def lineText (s : Session) (line : Line) : Except Fault String :=
  match s.renderLine line with
  | .ok text => .ok (text.getD "")
  | .error (.error _) => .ok (String.intercalate " " (line.map s.symbolText))
  | .error fault => .error fault

/-- Replaces every alias by the register it names now. -/
def pinAliases (s : Session) (line : Line) : Line :=
  line.map fun symbol =>
    match symbol with
    | .registerAlias id => .ofText (s.aliasRegister id).name
    | _ => symbol

/-! ## Sizes and types -/

def symbolSize (s : Session) (symbol : Symbol) : Size :=
  match s.denoted symbol with
  | .constant _ type => (type.map ValueType.size).getD .none
  | .slot _ _ type => type.size
  | .register r => r.size
  | .registerAlias id => (s.aliasRegister id).size
  | .function _ _ => .qword
  | _ => .none

def symbolType (s : Session) (symbol : Symbol) : Option ValueType :=
  match s.denoted symbol with
  | .constant _ type => type
  | .slot _ _ type => some type
  | .register r => some (.sized r.size)
  | .registerAlias id => some (.sized (s.aliasRegister id).size)
  | .function _ _ => some (.sized .qword)
  | _ => none

end Session

end StagedAsm
