import StagedAsm.Session.Expressions

/-!
# Settling type references

A type reference settles when what its path names is known. While it is not, a placeholder can be
made to wait for it; once that placeholder's turn comes, the reference settles from what it waited
for.
-/

namespace StagedAsm

/-- A value type, or a structure whose layout is not known. -/
inductive TypeOutcome where
  | known (type : ValueType)
  | awaitingLayout (type : TypeSymbol)
  deriving DecidableEq, Repr

/-- What a written type comes to if its path names `symbol`. -/
def Session.applyTypeForm (s : Session) (form : TypeForm) (symbol : Symbol) :
    Except CompileError TypeOutcome :=
  match symbol with
  | .type t =>
    match form with
    | .named _ => outcome t
    | .value _ =>
      match t.target? with
      | some target => outcome target
      | none => .error (.notAReference t.name)
    | .reference _ => (s.valueTypeOf (.reference t)).map .known
    | .sized _ => .error .sizedSettledEarly
    | .block _ => .error .sizedSettledEarly
  | other => .error (.notAType (s.pathText form.path) other.kindName)
where
  outcome (t : TypeSymbol) : Except CompileError TypeOutcome :=
    if t.size.isDefined || (s.typeInfo t).instanceSize.isSome then
      (s.valueTypeOf t).map .known
    else .ok (.awaitingLayout t)

def PlaceholderId.result (id : PlaceholderId) : CompileM Symbol := do
  let p := (← get).placeholder id
  match p.result? with
  | some symbol => pure symbol
  | none => fail (.resultUnknown p.text)

namespace TypeRefId

def setKnown (id : TypeRefId) (type : ValueType) : CompileM Unit :=
  modifyTypeRef id fun r => { r with known := some type }

def known (id : TypeRefId) : CompileM ValueType := do
  let s ← get
  match (s.typeRef id).known with
  | some type => pure type
  | none => fail (.typeUnresolved (s.typeRefText id))

def awaitedPlaceholder : Awaited → CompileM PlaceholderId
  | .symbol placeholder => pure placeholder
  | .layout type =>
    match type.layout? with
    | some placeholder => pure placeholder
    | none => fail (.noLayoutToAwait type.name)

def await (id : TypeRefId) (find : Finder) (link : PlaceholderId → CompileM Unit) :
    CompileM Unit := do
  let r := (← get).typeRef id
  if r.known.isSome then return
  let symbol ← find r.form.path
  let s ← get
  match symbol with
  | .placeholder p =>
    if (s.placeholder p).isSettled then settleFrom s r (s.settled symbol)
    else waitFor (.symbol p)
  | _ => settleFrom s r symbol
where
  settleFrom (s : Session) (r : TypeRef) (symbol : Symbol) : CompileM Unit := do
    match ← ofExcept (s.applyTypeForm r.form symbol) with
    | .known type => id.setKnown type
    | .awaitingLayout type => waitFor (.layout type)
  waitFor (awaited : Awaited) : CompileM Unit := do
    link (← awaitedPlaceholder awaited)
    modifyTypeRef id fun r => { r with awaited := some awaited }

/-- What the reference waited for is then forgotten. -/
def settle (id : TypeRefId) : CompileM Unit := do
  let s ← get
  let r := s.typeRef id
  if r.known.isSome then return
  match r.awaited with
  | none => fail (.nothingPending (s.typeRefText id))
  | some awaited =>
    modifyTypeRef id fun r => { r with awaited := none }
    match awaited with
    | .layout type => id.setKnown (← ofExcept (s.valueTypeOf type))
    | .symbol placeholder =>
      match ← ofExcept (s.applyTypeForm r.form (← placeholder.result)) with
      | .known type => id.setKnown type
      | .awaitingLayout type => fail (.layoutStillOpen type.name (s.typeRefText id))

def solve (id : TypeRefId) (find : Finder) : CompileM ValueType := do
  let r := (← get).typeRef id
  match r.known with
  | some type => pure type
  | none =>
    let symbol ← find r.form.path
    let s ← get
    match ← ofExcept (s.applyTypeForm r.form (s.settled symbol)) with
    | .known type =>
      id.setKnown type
      pure type
    | .awaitingLayout type => fail (.layoutNotResolved type.name)

end TypeRefId

end StagedAsm
