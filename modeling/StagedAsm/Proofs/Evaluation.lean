import StagedAsm.Proofs.Deeds
import StagedAsm.Session.Epoch
import StagedAsm.Session.Inspection

/-!
# Evaluation is quiet

Expressions are evaluated and programs are built without a trace outside the tables that only grow,
as long as looking paths up leaves none. The same holds of what a placeholder does when it is asked:
it neither binds names nor runs anything.
-/

namespace StagedAsm

open AdmitsSilent

variable {α β : Type} {R : Session → Session → Prop}

/-! ## Looking at a session -/

section Reading

variable [IsPreorder Session R]

theorem moves_fetch (select : Bindings → Dictionary α) (handle : String) :
    Moves R (fetch select handle) :=
  .bind .look fun s => by
    cases (select s.stored).get? handle with
    | some value => exact .pure value
    | none => exact .throw _

theorem moves_findNothing (path : Path) : Moves R (findNothing path) := .throw _

theorem moves_fetchPlaceholder (handle : String) : Moves R (fetchPlaceholder handle) :=
  .bind (moves_fetch _ handle) fun symbol => by
    split
    · exact .pure _
    · exact .throw _

variable (symbol : Symbol)

theorem moves_asType : Moves R (asType symbol) := by
  unfold asType
  split
  · exact .pure _
  · exact .throw _

theorem moves_result (id : PlaceholderId) : Moves R id.result := .bind .look fun s => by
    dsimp only
    split
    · exact .pure _
    · exact .fail _

theorem moves_known (id : TypeRefId) : Moves R id.known := .bind .look fun s => by
    split
    · exact .pure _
    · exact .fail _

theorem moves_awaitedPlaceholder (awaited : Awaited) :
    Moves R (TypeRefId.awaitedPlaceholder awaited) := by
  unfold TypeRefId.awaitedPlaceholder
  split
  · exact .pure _
  · split
    · exact .pure _
    · exact .fail _

theorem moves_renderedText : Moves R (renderedText symbol) := .seq .look <| .returns (.ofFault _)

theorem moves_joinStored (handles : List String) : Moves R (joinStored handles) := by
  induction handles with
  | nil => exact .pure _
  | cons handle rest ih =>
    have htail : ∀ symbol, Moves R (do
        let text ← renderedText symbol
        return text ++ ";" ++ (← joinStored rest)) :=
      fun _ => .seq (moves_renderedText _) <| .returns ih
    refine .bind (moves_fetch _ handle) fun symbol => ?_
    split
    · exact .bind (moves_result _) htail
    · exact .bind (.pure _) htail

theorem moves_keepError (x : Except Fault α) : Moves R (keepError x) := by
  unfold keepError
  split
  · exact .pure _
  · exact .pure _
  · exact .throw _

theorem moves_viewSymbol : Moves R (viewSymbol symbol) := .seq .look <| .returns (moves_keepError _)

theorem moves_viewLine (line : Line) : Moves R (viewLine line) :=
  .seq .look <| .seq (moves_keepError _) <| .returns (.ofFault _)

theorem moves_viewOperand (operand : Operand) : Moves R (viewOperand operand) := by
  refine .bind (moves_viewLine _) fun _ => ?_
  split
  · exact .returns (.pure _)
  · exact .returns (.pure _)
  · exact .seq .look <| .seq (moves_keepError _) <| .returns (.pure _)

theorem moves_viewOperands (operands : List Operand) : Moves R (viewOperands operands) := by
  induction operands with
  | nil => exact .pure _
  | cons operand rest ih => exact .seq (moves_viewOperand operand) <| .returns ih

end Reading

/-! ## Making new things -/

section Making

variable [AdmitsSilent R]

theorem moves_modify_silent {f : Session → Session} (h : ∀ s, Silent s (f s)) :
    Moves R (modify f : CompileM PUnit) := .modify fun s => silent (h s)

theorem moves_record (entry : LogEntry) : Moves R (record entry) :=
  moves_modify_silent fun _ => .of_eq rfl rfl

theorem moves_newAlias (register : Register) : Moves R (newAlias register) :=
  .modifyGet fun _ => silent (.of_eq rfl rfl)

theorem moves_newType (info : TypeInfo) : Moves R (newType info) :=
  .modifyGet fun _ => silent (.of_eq rfl rfl)

theorem moves_newTypeRef (reference : TypeRef) : Moves R (newTypeRef reference) :=
  .modifyGet fun _ => silent (.of_eq rfl rfl)

theorem moves_newDeferred (text : DeferredText) : Moves R (newDeferred text) :=
  .modifyGet fun _ => silent (.of_eq rfl rfl)

theorem moves_modifyType (id : TypeId) (f : TypeInfo → TypeInfo) : Moves R (modifyType id f) :=
  moves_modify_silent fun _ => .of_eq rfl rfl

variable (handle : Option String) (id : TypeRefId)

theorem moves_modifyTypeRef (f : TypeRef → TypeRef) : Moves R (modifyTypeRef id f) :=
  moves_modify_silent fun _ => .of_eq rfl rfl

theorem moves_newPlaceholder {p : Placeholder} (howner : p.owner = none) (hp : p.IsPending) :
    Moves R (newPlaceholder p) :=
  .modifyGet fun _ => silent ⟨rfl, #[p], rfl, by simpa using ⟨howner, hp⟩⟩

theorem moves_stored {f : String → Session → Session} (hf : ∀ handle s, Silent s (f handle s)) :
    Moves R (match handle with
      | none => pure ()
      | some handle => modify (f handle) : CompileM Unit) := by
  cases handle with
  | none => exact .pure _
  | some handle => exact moves_modify_silent (hf handle)

theorem moves_storeSymbol (symbol : Symbol) : Moves R (storeSymbol handle symbol) :=
  moves_stored handle fun _ _ => .of_eq rfl rfl

theorem moves_storeLine (line : Line) : Moves R (storeLine handle line) :=
  moves_stored handle fun _ _ => .of_eq rfl rfl

theorem moves_storeTypeRef : Moves R (storeTypeRef handle id) :=
  moves_stored handle fun _ _ => .of_eq rfl rfl

theorem moves_storeInstance (id : InstanceId) : Moves R (storeInstance handle id) :=
  moves_stored handle fun _ _ => .of_eq rfl rfl

theorem moves_storeSnapshot (snapshot : Snapshot) : Moves R (storeSnapshot handle snapshot) :=
  moves_stored handle fun _ _ => .of_eq rfl rfl

theorem moves_primitiveType (size : Size) : Moves R (primitiveType size) :=
  .returns (moves_newType _)

theorem moves_sizedStruct (name : String) (size : UInt32) : Moves R (sizedStruct name size) :=
  .returns (moves_newType _)

theorem moves_laidOutStruct (name : String) (size : UInt32) (resolution : TypeId → Resolution) :
    Moves R (laidOutStruct name size resolution) :=
  .bind (moves_newType _) fun id => .returns (moves_newPlaceholder rfl ⟨resolution id, rfl⟩)

end Making

theorem moves_modify_calm [AdmitsCalm R] {f : Session → Session} (h : ∀ s, Calm s (f s)) :
    Moves R (modify f : CompileM PUnit) := .modify fun s => AdmitsCalm.calm (h s)

theorem moves_newTemplate [AdmitsCalm R] {t : Template} (hmemo : t.memo = {})
    (hdeclared : t.declaration = none) : Moves R (newTemplate t) :=
  .modifyGet fun s => AdmitsCalm.calm
    { tree := refl_of ScopeTree.Keeps _
      same_tree := rfl
      placeholders := ⟨#[], by simp, by simp⟩
      templates := ⟨#[t], rfl, by simpa using hmemo⟩
      declared := fun {id snapshot} h => by
        have htemplate : ({ s with templates := s.templates.push t } : Session).template id =
            if id.index = s.templates.size then t else s.template id := getD_push _ _ _ _
        rw [htemplate] at h
        split at h
        · rw [hdeclared] at h
          cases h
        · exact h
      instances := rfl
      engines := rfl
      epoch := rfl
      history := rfl
      begun := rfl
      uid := .refl }

/-! ## Expressions -/

section Expressions

variable [AdmitsSilent R] {find : Finder}

theorem moves_evalOptional {eval : α → CompileM β} (h : ∀ a, Moves R (eval a)) (a : Option α) :
    Moves R (evalOptional eval a) := by
  cases a with
  | none => exact .pure _
  | some a => exact .returns (h a)

variable (hfind : ∀ path, Moves R (find path))

include hfind

-- one theorem for each evaluator, by recursion on the expression as they are
set_option linter.unusedSectionVars false in
mutual

theorem moves_evalSymbol (symbol : SymbolExpr) : Moves R (evalSymbol find symbol) := by
  cases symbol with rw [evalSymbol]
  | text s => exact .pure _
  | typed s type => exact .returns (moves_evalValueType type)
  | register name => exact .returns (.ofExcept _)
  | registerAlias name => exact .seq (.ofExcept _) <| .returns (moves_newAlias _)
  | imported label => exact .pure _
  | function label parameters => exact .returns (moves_evalParameters parameters)
  | type t => exact .returns (moves_evalTypeSymbol t)
  | deferred text => exact moves_newDeferred text
  | stored handle => exact moves_fetch _ handle
  | found path => exact .bind (moves_evalPath path) hfind
  | template handle => exact .returns (moves_fetch _ handle)

theorem moves_evalTypeSymbol (t : TypeSymbolExpr) : Moves R (evalTypeSymbol find t) := by
  cases t with rw [evalTypeSymbol]
  | primitive size => exact moves_primitiveType size
  | sizedStruct name size => exact moves_sizedStruct name size
  | laidOutStruct name size => exact moves_laidOutStruct name 0 _
  | referenceTo t levels => exact .returns (moves_evalTypeSymbol t)
  | targetOf t =>
    refine .bind (moves_evalTypeSymbol t) fun _ => ?_
    split
    · exact .pure _
    · exact .throw _
  | stored handle => exact .bind (moves_fetch _ handle) moves_asType
  | found path => exact .bind (moves_evalPath path) fun path => .bind (hfind path) moves_asType

theorem moves_evalValueType (type : ValueTypeExpr) : Moves R (evalValueType find type) := by
  cases type with rw [evalValueType]
  | sized size => exact .pure _
  | block bytes => exact .pure _
  | ofType t => exact .seq (moves_evalTypeSymbol t) <| .seq .look <| .ofExcept _

theorem moves_evalParameters (parameters : List ParameterExpr) :
    Moves R (evalParameters find parameters) := by
  match parameters with
  | [] => rw [evalParameters]; exact .pure _
  | .mk name type :: rest =>
    rw [evalParameters]
    exact .seq (moves_evalValueType type) <| .returns (moves_evalParameters rest)

theorem moves_evalPath (path : PathExpr) : Moves R (evalPath find path) := by
  match path with
  | [] => rw [evalPath]; exact .pure _
  | .mk name arguments :: rest =>
    rw [evalPath]
    exact .seq (moves_evalSymbols arguments) <| .returns (moves_evalPath rest)

theorem moves_evalSymbols (symbols : List SymbolExpr) : Moves R (evalSymbols find symbols) := by
  match symbols with
  | [] => rw [evalSymbols]; exact .pure _
  | symbol :: rest =>
    rw [evalSymbols]
    exact .seq (moves_evalSymbol symbol) <| .returns (moves_evalSymbols rest)

end

theorem moves_evalLine (line : LineExpr) : Moves R (evalLine find line) := by
  cases line with
  | symbols symbols => exact moves_evalSymbols hfind symbols
  | stored handle => exact moves_fetch _ handle

theorem moves_evalArgument (argument : ArgumentExpr) : Moves R (evalArgument find argument) := by
  cases argument with
  | register name => exact .pure _
  | immediate text => exact .pure _
  | memory path size => exact .returns (moves_evalPath hfind path)
  | address path => exact .returns (moves_evalPath hfind path)

theorem moves_evalTypeRef (type : TypeRefExpr) : Moves R (evalTypeRef find type) := by
  cases type with
  | sized size => exact moves_newTypeRef _
  | block bytes => exact moves_newTypeRef _
  | named path | value path | reference path =>
    exact .seq (moves_evalPath hfind path) <| moves_newTypeRef _
  | stored handle => exact moves_fetch _ handle

theorem moves_evalTypedNames (types : List (TypeRefExpr × String)) :
    Moves R (evalTypedNames find types) := by
  induction types with
  | nil => exact .pure _
  | cons entry rest ih => exact .seq (moves_evalTypeRef hfind entry.1) <| .returns ih

theorem moves_evalArguments (arguments : List ArgumentExpr) :
    Moves R (evalArguments find arguments) := by
  induction arguments with
  | nil => exact .pure _
  | cons argument rest ih => exact .seq (moves_evalArgument hfind argument) <| .returns ih

end Expressions

/-! ## Programs -/

section Programs

variable [AdmitsCalm R]

theorem moves_openStruct (name : String) (fields : List (TypeRefId × String)) :
    Moves R (openStruct name fields) :=
  .seq .look <| .returns (.ofFault _)

theorem moves_buildTemplate (name : String) (parameters : List String) (body : List Statement)
    (handle : String) : Moves R (buildTemplate name parameters body handle) :=
  .seq (moves_newTemplate rfl rfl) <| .seq (moves_modify_calm fun _ => .of_eq rfl rfl) <| .pure _

mutual

theorem moves_buildStatement (statement : Statement) : Moves R (buildStatement statement) := by
  cases statement with rw [buildStatement]
  | file name body => exact .returns (moves_buildProgram body)
  | importScope path => exact .returns (moves_evalPath moves_findNothing path)
  | within path body =>
    exact .seq (moves_evalPath moves_findNothing path) <| .returns (moves_buildProgram body)
  | ifThen code condition body | whileLoop code condition body =>
    exact .seq (moves_buildProgram condition) <| .returns (moves_buildProgram body)
  | ifElse code condition body otherwise =>
    exact .seq (moves_buildProgram condition) <| .seq (moves_buildProgram body) <|
      .returns (moves_buildProgram otherwise)
  | forLoop start code condition advance body =>
    exact .seq (moves_buildProgram start) <| .seq (moves_buildProgram condition) <|
      .seq (moves_buildProgram advance) <| .returns (moves_buildProgram body)
  | doLoop start body advance code condition =>
    exact .seq (moves_buildProgram start) <| .seq (moves_buildProgram body) <|
      .seq (moves_buildProgram advance) <| .returns (moves_buildProgram condition)
  | function name parameters body =>
    exact .seq (moves_evalTypedNames moves_findNothing parameters) <|
      .returns (moves_buildProgram body)
  | call target arguments targets =>
    exact .seq (moves_evalPath moves_findNothing target) <|
      .seq (moves_evalArguments moves_findNothing arguments) <|
        .returns (moves_evalArguments moves_findNothing targets)
  | ret value => exact .returns (moves_evalOptional (moves_evalArgument moves_findNothing) value)
  | struct name fields members =>
    exact .seq (moves_evalTypedNames moves_findNothing fields) <|
      .seq (moves_buildProgram members) <| .returns (moves_openStruct name _)
  | template name parameters body handle =>
    exact .returns (moves_buildTemplate name parameters body handle)
  | existingTemplate handle => exact .returns (moves_fetch _ handle)
  | entryPoint start => exact .returns (moves_evalOptional (moves_evalPath moves_findNothing) start)
  | _ => exact .pure _

theorem moves_buildProgram (statements : List Statement) : Moves R (buildProgram statements) := by
  match statements with
  | [] => rw [buildProgram]; exact .pure _
  | statement :: rest =>
    rw [buildProgram]
    exact .seq (moves_buildStatement statement) <| .returns (moves_buildProgram rest)

end

end Programs

/-! ## Type references and placeholders -/

section TypeRefs

variable [IsPreorder Session R] {id : TypeRefId} (hset : ∀ f, Moves R (modifyTypeRef id f))

include hset

theorem moves_settle : Moves R id.settle := by
  refine .bind .look fun s => ?_
  dsimp only
  split
  · exact .pure _
  · split
    · exact .fail _
    · refine .bind (hset _) fun _ => ?_
      split
      · exact .seq (.ofExcept _) <| hset _
      · refine .seq (moves_result _) <| .bind (.ofExcept _) fun _ => ?_
        split
        · exact hset _
        · exact .fail _

theorem moves_solve {find : Finder} (hfind : ∀ path, Moves R (find path)) :
    Moves R (id.solve find) := by
  refine .bind .look fun s => ?_
  dsimp only
  split
  · exact .pure _
  · refine .seq (hfind _) <| .seq .look <| .bind (.ofExcept _) fun _ => ?_
    split
    · exact .returns (hset _)
    · exact .fail _

theorem moves_await {find : Finder} {link : PlaceholderId → CompileM Unit}
    (hfind : ∀ path, Moves R (find path)) (hlink : ∀ awaited, Moves R (link awaited)) :
    Moves R (id.await find link) := by
  have hwait : ∀ awaited, Moves R (TypeRefId.await.waitFor id link awaited) := fun awaited =>
    .seq (moves_awaitedPlaceholder awaited) <| .seq (hlink _) <| hset _
  have hsettle : ∀ s r symbol, Moves R (TypeRefId.await.settleFrom id link s r symbol) := by
    intro s r symbol
    refine .bind (.ofExcept _) fun _ => ?_
    split
    · exact hset _
    · exact hwait _
  refine .bind .look fun s => ?_
  dsimp only
  split
  · exact .pure _
  · refine .bind (hfind _) fun symbol => .bind .look fun _ => ?_
    split
    · split
      · exact hsettle _ _ _
      · exact hwait _
    · exact hsettle _ _ _

end TypeRefs

section Settling

variable [AdmitsCalm R]

theorem moves_settleParameters (parameters : List (TypeRefId × String)) :
    Moves R (settleParameters parameters) := by
  induction parameters with
  | nil => exact .pure _
  | cons entry rest ih =>
    exact .seq (moves_settle (moves_modifyTypeRef _)) <| .seq (moves_known _) <| .returns ih

theorem moves_runScripted (p : Placeholder) (resolution : ResolutionExpr) :
    Moves R (runScripted p resolution) := by
  cases resolution with
  | constant text => exact .pure _
  | failing e => exact .fail e
  | joined handles => exact .returns (moves_joinStored handles)
  | signature label => exact .returns (moves_settleParameters _)
  | symbol symbol => exact moves_evalSymbol moves_findNothing symbol

theorem moves_publishSize (owner : TypeId) (size : UInt32) : Moves R (publishSize owner size) :=
  .returns (moves_modifyType owner _)

theorem moves_runResolution (p : Placeholder) (resolution : Resolution) :
    Moves R (runResolution p resolution) := by
  cases resolution with
  | scripted r => exact .seq (moves_record _) <| moves_runScripted p r
  | signature label =>
    simp only [runResolution]
    split
    · exact .returns (moves_settleParameters _)
    · exact .fail _
  | field owner reference =>
    exact .seq (moves_settle (moves_modifyTypeRef reference)) <| .seq (moves_known reference) <|
      .seq .look <| .seq (.ofFault _) <| .returns (moves_modifyType owner _)
  | layout owner => exact .seq .look <| moves_publishSize owner _
  | givenLayout owner size => exact .seq (.ofExcept size) <| moves_publishSize owner _

end Settling

end StagedAsm
