import StagedAsm.Proofs.CompiledCode
import StagedAsm.Proofs.StructSettling

/-!
# Compiling structures

The first pass declares structures, the second links their fields and settles them when it closes
the epoch, and the last finds their scopes and writes nothing. `compileStructs_exact_ends` says what
this comes to, and which of the things that may be wrong with declarations makes it fail.
-/

namespace StagedAsm

open List ScopeTree

/-! ## Structures with all their offsets -/

/-- All fields have their offsets, and all structures their sizes. -/
structure Session.LaidOut (s : Session) (decls : List StructDecl)
    (placed : List PlacedStruct) : Prop where
  root : s.tree.IsPlain root
  stands : ∀ p ∈ placed, p.Stands s decls p.decl.fields.length
  sized : ∀ p ∈ placed, (s.typeInfo p.struct).instanceSize = some (s.typeInfo p.struct).running

section LaidOut

variable {s s' : Session} {decls : List StructDecl} {placed : List PlacedStruct}

theorem Session.Settling.laidOut {done : List PlaceholderId} (h : s.Settling decls placed done)
    (hall : ∀ p ∈ placed, ∀ x, p.Owns x → x ∈ done) : s.LaidOut decls placed := by
  refine ⟨h.root, fun p hp => ?_, fun p hp => ?_⟩
  all_goals
    obtain ⟨n, hn⟩ := h.progress p hp
    obtain ⟨hlast, hsize⟩ := hn.sized (hall p hp _ (.inl rfl))
  · exact hlast ▸ hn.stands
  · exact hsize

theorem Session.LaidOut.sameNames (h : s.LaidOut decls placed) (htree : s.tree.SameNames s'.tree)
    (htypes : s'.types = s.types) (hplaceholders : s'.placeholders = s.placeholders) :
    s'.LaidOut decls placed := by
  refine ⟨htree.isPlain h.root, fun p hp => (h.stands p hp).sameNames htree htypes hplaceholders,
    fun p hp => ?_⟩
  rw [Session.typeInfo, htypes]
  exact h.sized p hp

theorem Session.LaidOut.exists_types (h : s.LaidOut decls placed) {p : PlacedStruct}
    (hp : p ∈ placed) : ∃ types size, s.Lays decls p.scope p.decl.fields types ∧
      s.instanceSize p.struct = .ok size ∧ size.toNat = totalBytes types := by
  obtain ⟨types, hlays, htotal⟩ := (h.stands p hp).laid
  rw [take_length] at hlays
  refine ⟨types, _, hlays, ?_, htotal⟩
  rw [Session.instanceSize, h.sized p hp]

end LaidOut

/-- What was made for declarations when they were declared one after the other. -/
structure IsPlacement (decls : List StructDecl) (placed : List PlacedStruct) : Prop where
  decls : placed.map (·.decl) = decls
  apart : placed.Pairwise PlacedStruct.Before
  leading : ∀ p ∈ placed, Leading 0 p.decl.fields p.offsets p.size.toNat

/-- What is wrong with declarations is found in this order. -/
inductive Rejects (decls : List StructDecl) : Fault → Prop
  | large (h : ¬ Small decls) : Rejects decls (.overflow .add)
  | clash {name text : String} (hsmall : Small decls) (h : ¬ Distinct decls) :
      Rejects decls (.error (.duplicateSymbol name text))
  | missing {miss : Miss} {fault : Fault} (hsmall : Small decls) (hdistinct : Distinct decls)
      (h : firstMiss? decls (decls.flatMap StructDecl.fields) = some miss)
      (hexplains : miss.Explains fault) : Rejects decls fault
  | overflow (hsmall : Small decls) (hdistinct : Distinct decls) (hdefined : Defined decls)
      (h : ¬ Bounded decls) : Rejects decls (.overflow .add)
  | cycle {names : List String} {placed : List PlacedStruct} (hsmall : Small decls)
      (hdistinct : Distinct decls) (hdefined : Defined decls) (hbounded : Bounded decls)
      (hplacement : IsPlacement decls placed) (h : PlacedStruct.Cyclic placed) :
      Rejects decls (.error (.cyclicDependency names))

/-! ## Passes -/

section Passes

variable {r : Runner} {s : Session} {engine : Engine} {e : EngineId}

theorem Session.At.onEngine (h : s.At e engine) (f : Engine → Engine) :
    (s.onEngine e f).At e (f engine) := by
  refine ⟨by simpa [Session.onEngine] using h.lt, ?_⟩
  rw [Session.onEngine, Session.engine_modify, if_pos ⟨rfl, h.lt⟩, h.eq]

theorem Session.At.length_scopes (h : s.At e engine) (hscopes : engine.scopes = [root]) :
    (s.engine e).scopes.length = 1 := by
  rw [h.eq, hscopes]
  rfl

theorem Session.At.withTree (h : s.At e engine) (t : ScopeTree) :
    (s.withTree t).At e engine := h.congr rfl

theorem Session.At.finish (h : s.At e engine) (pass : Pass) :
    (s.finish e pass).At e { engine with running := none, completed := some pass } :=
  (h.onEngine fun engine => { engine with running := none, completed := some pass }).congr rfl

theorem Session.At.start (h : s.At e engine) (pass : Pass) :
    (s.start e pass).At e engine := h.congr rfl

theorem Runner.openEpoch_at (he : s.At r.engine engine) (hepoch : s.epoch = none) :
    ∃ s', r.openEpoch s = .ok () s' ∧ s'.At r.engine { engine with ownsEpoch := true } ∧
      s'.epoch = some {} ∧ s'.tree = s.tree ∧ s'.types = s.types ∧
      s'.placeholders = s.placeholders ∧ s'.typeRefs = s.typeRefs := by
  have he' : ({ s with epoch := some {} } : Session).At r.engine engine := he.congr rfl
  exact ⟨_, openEpoch_eq_ok hepoch,
    (he'.onEngine fun engine => { engine with ownsEpoch := true }).congr rfl, rfl, rfl, rfl, rfl,
    rfl⟩

theorem Runner.rewind_at (he : s.At r.engine engine) (hscopes : engine.scopes = [root])
    (hroot : s.tree.IsPlain root) :
    ∃ visit, r.engine.endPass s =
      .ok () (s.withTree ((s.tree.rewound root).visited visit)) := by
  refine rewind_root (by rw [he.eq, hscopes]) ?_
  rw [hroot.cursor, hroot.blocks]
  rfl

theorem Section.closeAll_of_backlog {sections : List (String × Section)}
    (h : ∀ entry ∈ sections, entry.2.backlog = []) (sinks : Array String) :
    ∃ sections' sinks', closeAll sinks sections = (sections', sinks', .ok ()) := by
  induction sections generalizing sinks with
  | nil => exact ⟨[], sinks, rfl⟩
  | cons entry rest ih =>
    obtain ⟨name, first⟩ := entry
    have hclose : first.close = .ok (first.buffer, { first with buffer := "" }) := by
      rw [close, h _ mem_cons_self]
    obtain ⟨sections', sinks', hrest⟩ := ih (fun entry hentry => h entry (mem_cons_of_mem _ hentry))
      (sinks.modify first.sink.index (· ++ first.buffer))
    refine ⟨(name, { first with buffer := "" }) :: sections', sinks', ?_⟩
    rw [closeAll, hclose]
    dsimp only
    rw [hrest]

end Passes

/-! ## The passes over structures -/

section Structs

variable {r : Runner} {s : Session} {engine : Engine} {decls : List StructDecl}
  {placed : List PlacedStruct}

theorem Runner.declarePass_ends {written : List WrittenStruct}
    (hwritten : written.map WrittenStruct.decl = decls)
    (hfresh : ∀ w ∈ written, Leading 0 w.decl.fields w.offsets w.size.toNat ∧ w.IsFresh s)
    (hapart : written.Pairwise fun w w' => w.references + w.decl.fields.length ≤ w'.references)
    (hdeclared : s.Declared decls []) (hepoch : s.epoch = none) (he : s.At r.engine engine)
    (hscopes : engine.scopes = [root]) :
    Ends (r.runPass (written.flatMap WrittenStruct.actions) 1 .declare) s (fun _ s' =>
      ∃ placed : List PlacedStruct, placed.map PlacedStruct.toWrittenStruct = written ∧
        s'.Linked decls placed [] ∧ s'.typeRefs = s.typeRefs ∧
        (∀ w ∈ written, (w.decl.fields.map Prod.snd).Nodup) ∧
        s'.At r.engine { engine with
          ownsEpoch := true
          running := none
          completed := some .declare }) (Clashes (Distinct decls)) := by
  have he1 := (he.start .declare).onEngine fun engine => { engine with running := some .declare }
  obtain ⟨s1, hopen, he2, hepoch1, htree1, htypes1, hplaceholders1, htypeRefs1⟩ :=
    openEpoch_at he1 hepoch
  have hdeclared1 : s1.Declared decls [] :=
    hdeclared.sameNames (htree1 ▸ .refl _) htypes1 hplaceholders1
  have hopened : s1.OpenWith decls (fun x => ∃ p ∈ ([] : List PlacedStruct), p.Owns x)
      fun _ _ => False := (Session.OpenWith.of_empty hepoch1).congr rfl (by simp)
  have hfresh1 : ∀ w ∈ written, Leading 0 w.decl.fields w.offsets w.size.toNat ∧ w.IsFresh s1 := by
    intro w hw
    refine ⟨(hfresh w hw).1, fun i field hfield => ?_⟩
    rw [Session.typeRef, htypeRefs1]
    exact (hfresh w hw).2 i field hfield
  have hrun := declareStructs_ends (by simpa using hwritten) hfresh1 hapart (by simp) hdeclared1
    he2 hscopes rfl hopened
  refine runPass_ends (performPass_ends hopen hrun ?_) ?_
  · rintro s' ⟨placed, -, -, he', -⟩
    exact he'.length_scopes hscopes
  rintro s' ⟨placed, hplaced, hdeclared', he', htypeRefs', hnodup, hopened'⟩
  obtain ⟨visit, hleave⟩ : ∃ visit, r.leavePass .declare s' =
      .ok () (s'.withTree ((s'.tree.rewound root).visited visit)) :=
    rewind_at he' hscopes hdeclared'.root
  refine .of_ok hleave ⟨placed, hplaced, ?_, htypeRefs'.trans htypeRefs1, hnodup, ?_⟩
  · have hlinked : s'.Linked decls placed [] := by
      refine ⟨hdeclared', by simp, hopened'.weaken rfl (by simp) ?_⟩
      exact fun _ _ hfalse => hfalse.elim
    exact hlinked.sameNames ((sameNames_rewound _ _).visited _) rfl rfl rfl rfl
  · exact (he'.withTree _).finish .declare

theorem Runner.settleEpoch_ends (hplaced : placed.map (·.decl) = decls)
    (hnames : (decls.map StructDecl.name).Nodup) (hlinked : s.Linked decls placed placed)
    (he : s.At r.engine engine)
    (howns : engine.ownsEpoch = true) :
    Ends r.settleEpoch s (fun _ s' => s'.LaidOut decls placed ∧ ¬ PlacedStruct.Cyclic placed ∧
        (Hides decls ∨ Bounded decls) ∧ s'.At r.engine { engine with ownsEpoch := false })
      fun fault => Overflows decls fault ∨ (∃ names, fault = .error (.cyclicDependency names)) ∧
        PlacedStruct.Cyclic placed ∧ Bounded decls := by
  refine .after rfl ?_
  rw [he.eq, howns]
  refine .bind (closeEpoch_ends hlinked hplaced hnames) ?_
  rintro _ s1 ⟨⟨done, hsettling, hall⟩, hengines, hacyclic, hbounded⟩
  refine .of_ok rfl ⟨?_, hacyclic, hbounded, ?_⟩
  · exact (hsettling.laidOut hall).sameNames (.refl _) rfl rfl
  · exact (he.congr hengines).onEngine fun engine => { engine with ownsEpoch := false }

theorem Runner.resolvePass_ends (hsmall : Small decls) (hdistinct : Distinct decls)
    (hplacement : IsPlacement decls placed)
    (hlinked : s.Linked decls placed []) (hfresh : ∀ p ∈ placed, p.IsFresh s)
    (he : s.At r.engine engine) (hscopes : engine.scopes = [root])
    (hfiles : engine.files = []) (howns : engine.ownsEpoch = true) :
    Ends (r.runPass ((placed.map PlacedStruct.toWrittenStruct).flatMap WrittenStruct.actions) 1
        .resolve) s
      (fun _ s' => s'.LaidOut decls placed ∧ ¬ PlacedStruct.Cyclic placed ∧
        (Hides decls ∨ Defined decls ∧ Bounded decls) ∧ s'.At r.engine { engine with
          ownsEpoch := false
          running := none
          completed := some .resolve })
      fun fault => Hides decls ∨ Rejects decls fault := by
  have he1 := (he.start .resolve).onEngine fun engine => { engine with running := some .resolve }
  have hlinked1 : ((s.start r.engine .resolve).onEngine r.engine fun engine =>
      { engine with running := some .resolve }).Linked decls placed [] :=
    hlinked.sameNames (.refl _) rfl rfl rfl rfl
  have hrun := linkStructs_ends (nil_append placed) hplacement.decls hlinked1 hfresh he1 hscopes
    hfiles rfl
  refine runPass_ends (performPass_ends rfl (hrun.mono (fun _ _ h => h) ?_)
    fun _ h => h.2.length_scopes hscopes) ?_
  · have hfields : (placed.flatMap fun p => p.decl.fields) = decls.flatMap StructDecl.fields := by
      rw [← hplacement.decls, flatMap_map]
    rintro fault (hhides | ⟨miss, hmiss, hexplains⟩)
    · exact .inl hhides
    · exact .inr (.missing hsmall hdistinct (hfields ▸ hmiss) hexplains)
  rintro s' ⟨hlinked', he'⟩
  have hdefined := hlinked'.defined hplacement.decls
  refine .bind ((settleEpoch_ends hplacement.decls hdistinct.names hlinked' he' howns).mono
    (fun _ _ h => h) ?_) ?_
  · intro fault hfault
    refine or_iff_not_imp_left.mpr fun hhides => ?_
    rcases hfault with hfault | ⟨⟨names, rfl⟩, hcyclic, hbounded⟩
    · obtain ⟨rfl, hlarge⟩ := hfault.resolve_left hhides
      exact .overflow hsmall hdistinct (hdefined.resolve_left hhides) hlarge
    · exact .cycle hsmall hdistinct (hdefined.resolve_left hhides) hbounded hplacement hcyclic
  rintro _ s2 ⟨hlaid, hacyclic, hbounded, he2⟩
  obtain ⟨visit, hend⟩ := rewind_at he2 hscopes hlaid.root
  refine .of_ok hend ⟨?_, hacyclic, or_and_left.mpr ⟨hdefined, hbounded⟩, ?_⟩
  · exact hlaid.sameNames ((sameNames_rewound _ _).visited _) rfl rfl
  · exact (he2.withTree _).finish .resolve

variable {bad : Fault → Prop}

theorem Runner.enterStructs_ends {rest : List PlacedStruct} (hrest : ∀ p ∈ rest, p ∈ placed)
    (hlaid : s.LaidOut decls placed) (he : s.At r.engine engine)
    (hscopes : engine.scopes = [root]) :
    Ends (r.runActions .generate
        ((rest.map PlacedStruct.toWrittenStruct).flatMap WrittenStruct.actions)) s
      (fun _ s' => s'.LaidOut decls placed ∧ s'.At r.engine engine) bad := by
  induction rest generalizing s with
  | nil => exact .pure ⟨hlaid, he⟩
  | cons p rest ih =>
    have hstands := hlaid.stands p (hrest p mem_cons_self)
    have he1 := he.opening (.enterGlobal [p.decl.name]) p.scope
    have hlaid1 : (r.engine.opening (.enterGlobal [p.decl.name]) p.scope s).LaidOut decls placed :=
      hlaid.sameNames ((ScopeTree.SameNames.refl _).visited _) rfl rfl
    have hinside : ({ engine with scopes := p.scope :: engine.scopes } : Engine).scopes =
        [p.scope, root] := by rw [hscopes]
    have hengine : ({ engine with scopes := [root] } : Engine) = engine := by
      rw [← hscopes]
    refine .after (EngineId.enterGlobal_of_found he hscopes hlaid.root hstands.sub) ?_
    have hplain := (hlaid1.stands p (hrest p mem_cons_self)).plain
    refine .after (EngineId.exitGlobal_of_inside he1 hinside hplain) ?_
    refine ih (fun q hq => hrest q (mem_cons_of_mem _ hq))
      (hlaid1.sameNames ((sameNames_rewound _ _).visited _) rfl rfl) ?_
    exact hengine ▸ he1.afterExit hinside

theorem Runner.generatePass_ends (hlaid : s.LaidOut decls placed) (he : s.At r.engine engine)
    (hscopes : engine.scopes = [root])
    (hsections : ∀ entry ∈ engine.sections, entry.2.backlog = []) :
    Ends (r.runPass ((placed.map PlacedStruct.toWrittenStruct).flatMap WrittenStruct.actions) 1
        .generate) s
      (fun _ s' => s'.LaidOut decls placed ∧ ∃ sections, s'.At r.engine { engine with
        sections
        running := none
        completed := some .generate }) bad := by
  have he1 := (he.start .generate).onEngine fun engine => { engine with running := some .generate }
  have hlaid1 : ((s.start r.engine .generate).onEngine r.engine fun engine =>
      { engine with running := some .generate }).LaidOut decls placed :=
    hlaid.sameNames (.refl _) rfl rfl
  refine runPass_ends (performPass_ends rfl (enterStructs_ends (fun _ hp => hp) hlaid1 he1 hscopes)
    fun _ h => h.2.length_scopes hscopes) ?_
  rintro s' ⟨hlaid', he'⟩
  obtain ⟨sections, sinks, hclosed⟩ := Section.closeAll_of_backlog hsections s'.sinks
  have hclose : r.engine.closeSections s' = .ok () (Session.onEngine { s' with sinks } r.engine
      fun engine => { engine with sections }) := by
    refine bind_eq_ok.mpr ⟨s', s', rfl, ?_⟩
    rw [he'.eq]
    dsimp only
    rw [hclosed]
    rfl
  have he2 : ({ s' with sinks } : Session).At r.engine _ := he'.congr rfl
  have he3 := he2.onEngine fun engine => { engine with sections }
  obtain ⟨visit, hend⟩ := rewind_at he3 hscopes hlaid'.root
  refine .after hclose (.of_ok hend ⟨?_, sections, ?_⟩)
  · exact hlaid'.sameNames ((sameNames_rewound _ _).visited _) rfl rfl
  · exact (he3.withTree _).finish .generate

end Structs

/-! ## Compiling -/

section Compile

variable {r : Runner} {s : Session} {program : Program} {upTo pass : Pass} {rest : List Pass}
  {depth : Nat} {good : Session → Prop} {bad : Fault → Prop}

theorem Runner.runPasses_skip_ends (hle : ¬ pass ≤ upTo)
    (hrest : Ends (r.runPasses program upTo depth rest) s (fun _ => good) bad) :
    Ends (r.runPasses program upTo depth (pass :: rest)) s (fun _ => good) bad := by
  refine .after rfl ?_
  rw [decide_eq_false hle]
  exact hrest

variable {engine : Engine}

def compileStatements (sections : List String) (depth : Nat) (statements : List Statement)
    (upTo : Pass) : CompileM EngineId := do
  let e ← startEngine sections
  let program ← buildProgram statements
  (e.runner depth).compile program upTo
  return e

variable (sections : List String) (settings : Settings)

theorem startEngine_ends :
    Ends (startEngine sections) { settings } (fun e s => e = ⟨0⟩ ∧ s.epoch = none ∧
      (∀ decls, s.Declared decls []) ∧ ∃ engine : Engine, s.At e engine ∧
        engine.scopes = [root] ∧ engine.files = [] ∧ engine.completed = none ∧
        ∀ entry ∈ engine.sections, entry.2.backlog = []) bad := by
  refine .of_ok rfl ⟨rfl, rfl, fun decls => ⟨?_, by simp, by simp, .nil, ?_, ?_⟩, _,
    ⟨zero_lt_one, rfl⟩, rfl, rfl, rfl, ?_⟩
  · exact ⟨zero_lt_one, rfl, rfl, rfl⟩
  · intro name symbol h
    cases h
  · -- the only scope is the root, which is in no other
    intro parent name id h
    obtain ⟨hlt, horigin, -⟩ := find?_eq_some_iff.mp h
    obtain ⟨index⟩ := id
    obtain rfl : index = 0 := Nat.lt_one_iff.mp hlt
    cases horigin
  · intro entry hentry
    obtain ⟨_, _, rfl⟩ := mem_map.mp hentry
    rfl

/-- A fault without the places that it was passed on from. -/
def Fault.bare : Fault → Fault
  | .error e => .error e.cause
  | fault => fault

theorem Rejects.bare {decls : List StructDecl} {fault : Fault} (h : Rejects decls fault) :
    Rejects decls fault.bare := by
  have hbare : fault.bare = fault := by
    cases h with
    | missing _ _ _ hexplains => cases hexplains <;> rfl
    | _ => rfl
  rwa [hbare]

/-- The fault says that placeholders wait for each other, and some do. -/
def IsCycleFault (decls : List StructDecl) (fault : Fault) : Prop :=
  (∃ e names, fault = .error e ∧ e.cause = .cyclicDependency names) ∧
    ∃ placed, IsPlacement decls placed ∧ PlacedStruct.Cyclic placed

theorem Runner.runPasses_structs_ends {decls : List StructDecl} {written : List WrittenStruct}
    (hupTo : .resolve ≤ upTo) (hsmall : Small decls)
    (hwritten : written.map WrittenStruct.decl = decls)
    (hfresh : ∀ w ∈ written, Leading 0 w.decl.fields w.offsets w.size.toNat ∧ w.IsFresh s)
    (hapart : written.Pairwise fun w w' => w.references + w.decl.fields.length ≤ w'.references)
    (hdeclared : s.Declared decls []) (hepoch : s.epoch = none) (he : s.At r.engine engine)
    (hscopes : engine.scopes = [root]) (hfiles : engine.files = [])
    (hcompleted : engine.completed = none)
    (hsections : ∀ entry ∈ engine.sections, entry.2.backlog = []) :
    Ends (r.runPasses (written.flatMap WrittenStruct.actions) upTo 1 Pass.all) s
      (fun _ s' => (s'.engine r.engine).files = [] ∧
        (s'.engine r.engine).scopes = [root] ∧
        ∃ placed, IsPlacement decls placed ∧ s'.LaidOut decls placed ∧
          ¬ PlacedStruct.Cyclic placed ∧
          (Hides decls ∨ Small decls ∧ Distinct decls ∧ Defined decls ∧ Bounded decls))
      fun fault => Hides decls ∨ Rejects decls fault := by
  have hfirst : Pass.declare ≤ upTo := by
    cases upTo <;> decide
  refine runPasses_cons_ends hfirst ?_ ((declarePass_ends hwritten hfresh hapart hdeclared hepoch
    he hscopes).mono (fun _ _ h => h) ?_) ?_
  · rw [he.eq, Engine.hasCompleted, hcompleted]
  · rintro fault ⟨⟨name, text, rfl⟩, hclash⟩
    exact .inr (.clash hsmall hclash)
  rintro s1 ⟨placed, rfl, hlinked, htypeRefs, hnodup, he1⟩
  have hdecls : placed.map (·.decl) = decls := by
    rw [← hwritten, map_map]
    rfl
  have hplacement : IsPlacement decls placed := by
    refine ⟨hdecls, hlinked.declared.apart, fun p hp => ?_⟩
    exact (hfresh _ (mem_map_of_mem hp)).1
  have hfresh1 : ∀ p ∈ placed, p.IsFresh s1 := by
    intro p hp i field hfield
    rw [Session.typeRef, htypeRefs]
    exact (hfresh _ (mem_map_of_mem hp)).2 i field hfield
  have hdistinct := hlinked.declared.distinct hdecls fun p hp => hnodup _ (mem_map_of_mem hp)
  refine runPasses_cons_ends hupTo ?_ (resolvePass_ends hsmall hdistinct hplacement hlinked hfresh1
    he1 hscopes hfiles rfl) ?_
  · rw [he1.eq]
    rfl
  rintro s2 ⟨hlaid, hacyclic, hsound, he2⟩
  have hall : Hides decls ∨ Small decls ∧ Distinct decls ∧ Defined decls ∧ Bounded decls :=
    hsound.imp_right fun h => ⟨hsmall, hdistinct, h⟩
  by_cases hlast : Pass.generate ≤ upTo
  · refine runPasses_cons_ends hlast ?_ (generatePass_ends hlaid he2 hscopes hsections) ?_
    · rw [he2.eq]
      rfl
    rintro s3 ⟨hlaid3, sections, he3⟩
    refine .pure ⟨?_, ?_, placed, hplacement, hlaid3, hacyclic, hall⟩
    · rw [he3.eq, hfiles]
    · rw [he3.eq, hscopes]
  · refine runPasses_skip_ends hlast (.pure ⟨?_, ?_, placed, hplacement, hlaid, hacyclic, hall⟩)
    · rw [he2.eq, hfiles]
    · rw [he2.eq, hscopes]

theorem compileStructs_exact_ends (depth : Nat) (decls : List StructDecl)
    (hupTo : .resolve ≤ upTo) :
    Ends (compileStatements sections depth (decls.map StructDecl.statement) upTo) { settings }
      (fun _ s => ∃ placed, IsPlacement decls placed ∧ s.LaidOut decls placed ∧
        ¬ PlacedStruct.Cyclic placed ∧
        (Hides decls ∨ Small decls ∧ Distinct decls ∧ Defined decls ∧ Bounded decls))
      fun fault => Hides decls ∨ Rejects decls fault.bare := by
  refine .bind (startEngine_ends sections settings) ?_
  rintro e s ⟨-, hepoch, hdeclared, engine, he, hscopes, hfiles, hcompleted, hsections⟩
  refine .bind ((buildProgram_statements_ends decls s).mono (fun _ _ h => h) ?_) ?_
  · rintro fault ⟨rfl, hlarge⟩
    exact .inr (.large hlarge)
  rintro _ s1 ⟨hsmall, written, hwritten, rfl, hbuilt, hapart, added, hs1⟩
  have hdeclared1 : s1.Declared decls [] := by
    rw [hs1]
    exact (hdeclared decls).sameNames (.refl _) rfl rfl
  have he1 : s1.At (e.runner depth).engine engine := he.congr (by rw [hs1])
  have hpasses := Runner.runPasses_structs_ends hupTo hsmall hwritten (fun w hw => (hbuilt w hw).2)
    hapart
    hdeclared1 (by rw [hs1, hepoch]) he1 hscopes hfiles hcompleted hsections
  have hcompile := Runner.compile_ends (he1.length_scopes hscopes) hpasses fun s' h => by
    rw [he1.eq, hfiles, hscopes]
    exact ⟨h.1, h.2.1⟩
  refine .bind (hcompile.mono (fun _ _ h => h) ?_) fun _ s2 hs2 => .pure hs2.2.2
  rintro fault (hfault | ⟨cause, location, hfault, rfl⟩)
  · exact hfault.imp_right .bare
  · rw [Fault.bare, CompileError.cause_locate]
    exact hfault.imp_right .bare

theorem compileStructs_ends (depth : Nat) (decls : List StructDecl) (hupTo : .resolve ≤ upTo) :
    Ends (compileStatements sections depth (decls.map StructDecl.statement) upTo) { settings }
      (fun _ s => ∃ placed, IsPlacement decls placed ∧ s.LaidOut decls placed ∧
        ¬ PlacedStruct.Cyclic placed)
      fun fault => ¬ Proper decls ∨ IsCycleFault decls fault := by
  refine (compileStructs_exact_ends sections settings depth decls hupTo).mono ?_ ?_
  · rintro _ s ⟨placed, hplacement, hlaid, hacyclic, -⟩
    exact ⟨placed, hplacement, hlaid, hacyclic⟩
  rintro fault (hhides | h)
  · exact .inl fun hproper => hproper.not_hides hhides
  generalize hbare : fault.bare = bare at h
  cases h with
  | large h => exact .inl fun hproper => h (Bounded.small hproper.bounded)
  | clash _ h => exact .inl fun hproper => h ⟨hproper.names, hproper.fields⟩
  | missing _ _ h =>
    refine .inl fun hproper => ?_
    rw [defined_iff.mp hproper.declared] at h
    cases h
  | overflow _ _ _ h => exact .inl fun hproper => h hproper.bounded
  | cycle _ _ _ _ hplacement h =>
    cases fault with
    | error e => exact .inr ⟨⟨e, _, rfl, Fault.error.inj hbare⟩, _, hplacement, h⟩
    | _ => cases hbare

end Compile

/-- Once structures are compiled, every field of every structure is bound to the sum of the bytes of
    the fields before it, with its own type, and the size of the structure is the sum of the bytes
    of all of them. -/
theorem structs_laid_out_at_prefix_sums {sections : List String} {settings : Settings} {depth : Nat}
    {decls : List StructDecl} {upTo : Pass} {e : EngineId} {s : Session}
    (hupTo : .resolve ≤ upTo)
    (h : compileStatements sections depth (decls.map StructDecl.statement) upTo { settings } =
      .ok e s) {d : StructDecl} (hd : d ∈ decls) :
    ∃ (target : TypeSymbol) (scope : ScopeId) (types : List ValueType) (size : UInt32),
      s.tree.member? ScopeTree.root d.name = some (.type (.reference target)) ∧
      s.tree.subScope? ScopeTree.root d.name = some scope ∧
      s.instanceSize target = .ok size ∧ size.toNat = totalBytes types ∧
      types.length = d.fields.length ∧
      ∀ (i : Nat) (field : FieldType × String) (value : ValueType), d.fields[i]? = some field →
        types[i]? = some value → s.HasType field.1 value ∧ field.1.Takes decls value.bytes.toNat ∧
          s.tree.member? scope field.2 =
            some (.constant (toString (totalBytes (types.take i))) (some value)) := by
  obtain ⟨placed, hplacement, hlaid, -⟩ :=
    (compileStructs_ends sections settings depth decls hupTo).good_of_ok h
  rw [← hplacement.decls] at hd
  obtain ⟨p, hp, rfl⟩ := List.mem_map.mp hd
  obtain ⟨types, size, hlays, hsize, htotal⟩ := hlaid.exists_types hp
  exact ⟨p.struct, p.scope, types, size, (hlaid.stands p hp).named, (hlaid.stands p hp).sub, hsize,
    htotal, hlays.length_eq, fun i field value => hlays.field⟩

/-- Structures that name each other before they are declared. -/
def treeDecls : List StructDecl :=
  [⟨"Tree", [(.block 3, "tag"), (.value "Pair", "both"), (.named "Tree", "parent"),
      (.sized .word, "depth")]⟩,
    ⟨"Pair", [(.value "Leaf", "left"), (.value "Leaf", "right")]⟩,
    ⟨"Leaf", [(.sized .dword, "key"), (.reference "Tree", "owner"), (.block 5, "text")]⟩]

theorem structs_laid_out_at_prefix_sums_tree :
    ∃ e s, compileStatements defaultSections 0 (treeDecls.map StructDecl.statement) .generate {} =
        .ok e s ∧
      ∀ d ∈ treeDecls, ∃ (target : TypeSymbol) (scope : ScopeId) (types : List ValueType)
        (size : UInt32),
        s.tree.member? ScopeTree.root d.name = some (.type (.reference target)) ∧
        s.tree.subScope? ScopeTree.root d.name = some scope ∧
        s.instanceSize target = .ok size ∧ size.toNat = totalBytes types ∧
        types.length = d.fields.length ∧
        ∀ (i : Nat) (field : FieldType × String) (value : ValueType), d.fields[i]? = some field →
          types[i]? = some value → s.HasType field.1 value ∧
            field.1.Takes treeDecls value.bytes.toNat ∧
            s.tree.member? scope field.2 =
              some (.constant (toString (totalBytes (types.take i))) (some value)) := by
  have hsucceeds : succeeds (compileStatements defaultSections 0
      (treeDecls.map StructDecl.statement) .generate) {} = true := by decide +kernel
  obtain ⟨e, s, h⟩ := exists_ok_of_succeeds hsucceeds
  exact ⟨e, s, h, fun d hd => structs_laid_out_at_prefix_sums (by decide) h hd⟩

end StagedAsm
