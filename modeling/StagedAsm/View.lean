import StagedAsm.Engine
import StagedAsm.Placeholder
import StagedAsm.ScopeTree.Basic
import StagedAsm.Settings

/-!
# Views

What can be observed of the things a compilation works with, as they are at one moment.
-/

namespace StagedAsm

structure TypeView where
  type : TypeSymbol
  instanceSize : Except CompileError UInt32
  valueSize : Except CompileError UInt32
  members : Option ScopeId
  layoutSettled : Option Bool
  deriving Inhabited

inductive SymbolDetail where
  | plain
  | type (view : TypeView)
  | template (name : String) (parameters : List String) (instances : Nat)
  | placeholder (name : Option String) (owner : Option ScopeId) (isSettled : Bool)
      (parameters : Option (List (String × String)))
  | register (isAlias : Bool) (r : Register)
  | slot (pointer : Int)
  deriving Inhabited

structure SymbolView where
  symbol : Symbol
  text : String
  rendered : Except CompileError (Option String)
  size : Size
  type : Option ValueType
  detail : SymbolDetail
  deriving Inhabited

structure LineView where
  rendered : Except CompileError (Option String)
  text : String
  addressesFrame : Bool
  symbolCount : Nat
  deriving Inhabited

structure OperandView where
  operand : Operand
  text : LineView
  form : Option (Except CompileError (Option String))
  deriving Inhabited

structure InstanceView where
  text : String
  template : String
  arguments : List String
  scope : ScopeId
  mangled : Option String
  isReady : Bool
  completed : List Bool
  deriving Inhabited

structure TypeRefView where
  text : String
  form : TypeForm
  known : Except CompileError ValueType
  deriving Inhabited

structure Place where
  pass : Pass
  scope : ScopeId
  path : List String
  file : Option String
  isLocal : Bool
  isAnonymous : Bool
  deriving Inhabited

structure ScopeView where
  name : Option String
  absoluteName : String
  kind : ScopeKind
  isAnonymous : Bool
  variableBytes : UInt32
  pointer : Option Int
  associatedType : Option TypeView
  deriving Inhabited

inductive Observation where
  | nothing
  | text (s : String)
  | number (n : Int)
  | flag (b : Bool)
  | flags (bs : List Bool)
  | optionalText (s : Option String)
  | texts (ss : List String)
  | scope (id : ScopeId)
  | optionalScope (id : Option ScopeId)
  | scopeView (view : ScopeView)
  | place (p : Place)
  | settings (s : Settings)
  | optionalType (view : Option TypeView)
  | register (r : Register)
  | symbol (view : SymbolView)
  | optionalSymbol (view : Option SymbolView)
  | summary (view : SymbolView)
  | line (view : LineView)
  | operand (view : OperandView)
  | valueType (v : ValueType)
  | typeRef (view : TypeRefView)
  | frame (f : Frame)
  | callSite (callee : OperandView) (parameters : Option (List Parameter))
      (arguments targets : List OperandView)
  | templateInstance (view : InstanceView)
  | template (name : String) (parameters : List String) (instances : Nat)
  | memo (instances : List String)
  | memoEntry (isPresent : Bool) (found : Option String)
  | snapshot (scope : ScopeId) (s : Snapshot) (uid : Nat)
  deriving Inhabited

inductive LogEntry where
  | command (pass : Pass) (label : String) (outcome : Except CompileError Observation)
  | building (template : String)
  | resolving (name : Option String)
  deriving Inhabited

end StagedAsm
