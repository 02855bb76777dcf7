import StagedAsm.Script.Expression

/-!
# Statements and commands

Most statements describe a construct of the language: a file, a namespace, a loop, a function, a
structure, a template. `perform` runs commands, the single operations of the engine.
-/

namespace StagedAsm

inductive ScopeCommand where
  | setPosition (line column : UInt32)
  | location
  | enterFile (name : String)
  | exitFile
  | currentFile
  | importScope (path : PathExpr)
  | enterGlobal (path : PathExpr)
  | exitGlobal
  | currentPath
  | associatedType
  | enterLocal (name : String)
  | exitLocal
  | enterBlock
  | exitBlock
  | note (key : String)
  | setNote (key value : String)
  | place
  | completed
  | uid
  | label (name : String)
  | settings
  | scopeCount
  | output (sectionName : String)

/-- With `store`, what is made is stored under a handle. -/
inductive DeclarationCommand where
  | declare (name : String) (symbol : SymbolExpr) (store : Option String)
  | declareVariable (name : String) (type : ValueTypeExpr)
  | declareVariableOf (name : String) (type : TypeRefExpr)
  | allocate (bytes : UInt32)
  | declareExisting (name : String) (type : ValueTypeExpr) (offset : Int)
  | declareConstant (name text : String) (type : Option ValueTypeExpr)
  | declareFunction (name label : String) (parameters : List ParameterExpr)
  | declarePlaceholder (name : String) (resolution : ResolutionExpr) (store : Option String)
  | declareFunctionPlaceholder (name : String) (parameters : List (TypeRefExpr × String))
      (resolution : ResolutionExpr) (store : Option String)
  | newPlaceholder (resolution : ResolutionExpr) (store : String)
  | layoutOf (type : TypeSymbolExpr) (store : String)
  | addPlaceholder (handle : String)
  | addDependency (first second : String)
  | resolvePlaceholder (handle : String)
  | placeholderResult (handle : String)
  | declareType (name : String) (type : TypeSymbolExpr) (store : Option String)
  | declareTemplate (name handle : String)
  | setAlias (name register : String)
  | isStackVariable (name : String)

inductive SymbolCommand where
  | find (path : PathExpr) (store : Option String)
  | inspect (symbol : SymbolExpr) (store : Option String)
  | settled (symbol : SymbolExpr)
  | summary (symbol : SymbolExpr)
  | rendered (symbol : SymbolExpr)
  | equal (first second : SymbolExpr)
  | assign (symbol : SymbolExpr) (register : String)
  | inspectLine (line : LineExpr) (store : Option String)
  | pinned (line : LineExpr)
  | setCell (name : String) (value : Option String)
  | operand (operand : OperandExpr)
  | valueType (type : ValueTypeExpr)
  | sameValueType (first second : ValueTypeExpr)
  | raise (e : CompileError)

inductive TypeRefCommand where
  | inspect (type : TypeRefExpr) (store : Option String)
  | await (type : TypeRefExpr) (handle : String)
  | settle (type : TypeRefExpr)
  | solve (type : TypeRefExpr)

inductive FrameCommand where
  | size
  | setSize (bytes : UInt32)
  | extent
  | pointer
  | move (delta : Int)
  | declareCall
  | isLeaf
  | inspect

inductive OutputCommand where
  | emit (line : LineExpr) (sectionName : String)
  | emitDeferred (line : LineExpr) (sectionName : String)
  | builtinTypes
  | arrayFields (elementSize : UInt32)
  | resolveCall (target : PathExpr) (arguments targets : List ArgumentExpr)
  | call (callee : OperandExpr) (arguments targets : List OperandExpr)
      (parameters : Option (List ParameterExpr))
  | ret (value : Option OperandExpr)

inductive TemplateCommand where
  | instantiate (handle : String) (arguments : List SymbolExpr) (store : Option String)
  | inspectInstance (handle : String)
  | advanceInstance (handle : String) (pass : Pass)
  | inspect (handle : String)
  | memoInsert (arguments : List SymbolExpr) (handle : String)
  | memoFind (arguments : List SymbolExpr)
  | snapshot (store : Option String)

mutual

/-- One construct of a program. -/
inductive Statement where
  | perform (pass : Option Pass) (calls : List Call)
  | file (name : String) (body : List Statement)
  | importScope (path : PathExpr)
  | within (path : PathExpr) (body : List Statement)
  | constant (name value : String)
  | instruction (line : String)
  | data (line : String)
  | emit (line : LineExpr)
  | ifThen (code : String) (condition body : List Statement)
  | ifElse (code : String) (condition body otherwise : List Statement)
  | whileLoop (code : String) (condition body : List Statement)
  | forLoop (start : List Statement) (code : String) (condition advance body : List Statement)
  | doLoop (start body advance : List Statement) (code : String) (condition : List Statement)
  | function (name : String) (parameters : List (TypeRefExpr × String)) (body : List Statement)
  | call (target : PathExpr) (arguments targets : List ArgumentExpr)
  | ret (value : Option ArgumentExpr)
  | struct (name : String) (fields : List (TypeRefExpr × String)) (members : List Statement)
  | template (name : String) (parameters : List String) (body : List Statement)
      (handle : String)
  | existingTemplate (handle : String)
  | builtins
  | kernel32
  | entryPoint (start : Option PathExpr)

/-- A command with the label it is logged under. One that fails as an attempt is logged with its
    error. -/
inductive Call where
  | mk (label : String) (command : Command) (attempt : Bool)

inductive Command where
  | scope (c : ScopeCommand)
  | declaration (c : DeclarationCommand)
  | symbol (c : SymbolCommand)
  | typeRef (c : TypeRefCommand)
  | frame (c : FrameCommand)
  | output (c : OutputCommand)
  | template (c : TemplateCommand)
  | newTemplate (name : String) (parameters : List String) (body : List Statement)
      (handle : String)

end

instance : Inhabited Statement := ⟨.builtins⟩
instance : Inhabited Call := ⟨.mk "" (.scope .location) false⟩

end StagedAsm
