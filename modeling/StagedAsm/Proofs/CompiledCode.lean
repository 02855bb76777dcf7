import StagedAsm.Proofs.ControlFlow
import StagedAsm.Proofs.Outcomes
import StagedAsm.Proofs.Settling
import StagedAsm.Run.Script

/-!
# Compiling structured code

A new engine takes code through all three passes: the first makes the blocks, the second finds
nothing to settle, and the last hands the lines of the code to the sink of the program section.
-/

namespace StagedAsm

open EngineId Runner ScopeTree Section Session

/-! ## The part of a session that matters -/

/-- What compiling code reads and changes of a session. -/
structure Session.Core where
  engine : Engine
  tree : ScopeTree
  nextUid : Nat
  sinks : Array String
  epoch : Option (DependencyGraph PlaceholderId)

namespace Session

def core (s : Session) (e : EngineId) : Core :=
  ⟨s.engine e, s.tree, s.nextUid, s.sinks, s.epoch⟩

def onEngine (s : Session) (e : EngineId) (f : Engine → Engine) : Session :=
  { s with engines := s.engines.modify e.index f }

variable {s : Session} {e : EngineId}

theorem core_onEngine (h : e.index < s.engines.size) (f : Engine → Engine) :
    (s.onEngine e f).core e = { s.core e with engine := f (s.core e).engine } := by
  have hengine : (s.onEngine e f).engine e = f (s.engine e) :=
    (s.engine_modify e e f).trans (if_pos ⟨rfl, h⟩)
  rw [core, hengine]
  rfl

theorem core_start (e' : EngineId) (pass : Pass) : (s.start e' pass).core e = s.core e := rfl

theorem core_withTree (t : ScopeTree) : (s.withTree t).core e = { s.core e with tree := t } := rfl

theorem core_finish (h : e.index < s.engines.size) (pass : Pass) :
    (s.finish e pass).core e = { s.core e with
      engine := { (s.core e).engine with running := none, completed := some pass } } :=
  s.core_onEngine h fun engine => { engine with running := none, completed := some pass }

theorem core_writing (h : e.index < s.engines.size) (lines : List String) (labels : Nat)
    (t : ScopeTree) : (s.writing e lines labels t).core e = { s.core e with
        engine := { (s.core e).engine with
          sections := modifyFirst programSection
            (fun entry => lines.foldl accept entry) (s.core e).engine.sections }
        tree := t
        nextUid := (s.core e).nextUid + labels } := by
  rw [core, engine_writing h]
  rfl

theorem lt_of_core {core : Core} (h : s.core e = core) {id : ScopeId} {outer : List ScopeId}
    (hscopes : core.engine.scopes = id :: outer) : e.index < s.engines.size := by
  rw [← h] at hscopes
  exact lt_of_scopes hscopes

end Session

/-! ## Passes -/

/-- The blocks of a program stand ready in the root, to be entered from the first on. -/
structure ScopeTree.Ready (x : Blocks) (t : ScopeTree) : Prop where
  inside : 0 < t.size
  blocks : (t.scope root).blocks = x.ids 1
  cursor : (t.scope root).cursor = 0
  fits : t.Fits 1 x
  unnamed : ∀ id, (t.scope id).name = none

namespace ScopeTree

variable {x : Blocks} {t t' : ScopeTree}

theorem ready_rewound (hinside : 0 < t.size) (hblocks : (t.scope root).blocks = x.ids 1)
    (hfits : t.Fits 1 x) (hunnamed : ∀ id, (t.scope id).name = none) :
    (t.rewound root).Ready x := by
  have hroot : (t.rewound root).scope root = { t.scope root with cursor := 0, canGrow := false } :=
    scope_modifyScope_self hinside _
  have hother : ∀ {id : ScopeId}, id ≠ root → (t.rewound root).scope id = t.scope id :=
    fun hne => scope_modifyScope_of_ne hne _
  refine ⟨?_, ?_, ?_, hfits.congr fun id hle _ => ?_, fun id => ?_⟩
  · rw [size_rewound]
    exact hinside
  · rw [hroot]
    exact hblocks
  · rw [hroot]
  · rw [hother]
    · exact .refl _
    · rintro rfl
      exact Nat.not_succ_le_zero _ hle
  · by_cases hid : id = root
    · rw [hid, hroot]
      exact hunnamed root
    · rw [hother hid]
      exact hunnamed id

theorem Grown.ready (h : ({} : ScopeTree).Grown root x t) :
    (t.scope root).cursor = (t.scope root).blocks.length ∧ (t.rewound root).Ready x := by
  have hroot : t.scope root = { (default : Scope) with blocks := x.ids 1, cursor := x.length } := by
    rw [h.current]
    simp [ScopeTree.scope, root, ScopeTree.size, default]
  refine ⟨?_, ready_rewound ?_ ?_ h.fits (h.unnamed fun id => ?_)⟩
  · rw [hroot, Blocks.length_ids]
  · rw [h.size]
    exact Nat.lt_of_lt_of_le Nat.zero_lt_one (Nat.le_add_right _ _)
  · rw [hroot]
  · rw [scope_new]

theorem Ready.taken_down (h : t.Ready x) (visit : Visit) : (t.visited visit).Ready x :=
  ⟨h.inside, h.blocks, h.cursor, h.fits.congr fun _ _ _ => .refl _, h.unnamed⟩

theorem Ready.visited (h : t.Ready x) {kept : String → Prop}
    (hvisits : t.Visits kept root x.length t') :
    (t'.scope root).cursor = (t'.scope root).blocks.length ∧ (t'.rewound root).Ready x := by
  obtain ⟨notes, hroot, -⟩ := hvisits.current
  refine ⟨?_, ready_rewound ?_ ?_ (h.fits.congr fun id hle _ => hvisits.others id ?_)
    (hvisits.unnamed h.unnamed)⟩
  · rw [hroot]
    simp [h.cursor, h.blocks, Blocks.length_ids]
  · rw [hvisits.size]
    exact h.inside
  · rw [hroot]
    exact h.blocks
  · rintro rfl
    exact Nat.not_succ_le_zero _ hle

end ScopeTree

namespace Runner

variable {r : Runner} {s s1 s2 : Session} {program : Program} {pass : Pass} {depth : Nat}
  {x : Blocks} {engine : Engine} {t : ScopeTree} {uid : Nat} {sinks : Array String}
  {epoch : Option (DependencyGraph PlaceholderId)}

variable {good : Session → Prop} {bad : Fault → Prop} {upTo : Pass}

theorem performPass_ends (hopen : (if pass = .declare then r.openEpoch else pure ())
      (s.onEngine r.engine fun engine => { engine with running := some pass }) = .ok () s1)
    (h : Ends (r.runActions pass program) s1 (fun _ => good) bad)
    (hdepth : ∀ s', good s' → (s'.engine r.engine).scopes.length = depth) :
    Ends (r.performPass program depth pass) s (fun _ => good) bad := by
  have hrest : Ends (r.runActions pass program >>= fun _ => r.engine.state >>= fun state =>
      if state.scopes.length ≠ depth then
        fail (.passLeftScopesOpen pass state.scopes.length depth)
      else pure ()) s1 (fun _ => good) bad := by
    refine h.bind fun _ s' hgood => .after rfl ?_
    rw [hdepth s' hgood, if_neg (not_not_intro rfl)]
    exact .pure hgood
  refine .after rfl ?_
  by_cases hpass : pass = .declare
  · rw [if_pos hpass] at hopen ⊢
    exact .after hopen hrest
  · rw [if_neg hpass] at hopen ⊢
    obtain ⟨-, rfl⟩ := pure_eq_ok.mp hopen
    exact hrest

variable {middle : Session → Prop}

theorem runPass_ends
    (hperform :
      Ends (r.performPass program depth pass) (s.start r.engine pass) (fun _ => middle) bad)
    (hleave : ∀ s', middle s' →
      Ends (r.leavePass pass) s' (fun _ s'' => good (s''.finish r.engine pass)) bad) :
    Ends (r.runPass program depth pass) s (fun _ => good) bad := by
  refine .after rfl (hperform.bind fun _ s1 hs1 => ?_)
  refine (hleave s1 hs1).bind fun _ s2 hs2 => ?_
  exact .of_ok rfl hs2

/-- A pass that is asked for and was not completed is run. -/
theorem runPasses_cons_ends {rest : List Pass} (hle : pass ≤ upTo)
    (hcompleted : (s.engine r.engine).hasCompleted pass = false)
    (hpass : Ends (r.runPass program depth pass) s (fun _ => middle) bad)
    (hrest : ∀ s', middle s' → Ends (r.runPasses program upTo depth rest) s' (fun _ => good) bad) :
    Ends (r.runPasses program upTo depth (pass :: rest)) s (fun _ => good) bad := by
  refine .after rfl ?_
  rw [hcompleted, decide_eq_true hle]
  exact hpass.bind fun _ s' hs' => hrest s' hs'

theorem compile_ends (hdepth : (s.engine r.engine).scopes.length = depth)
    (h : Ends (r.runPasses program upTo depth Pass.all) s (fun _ => good) bad)
    (hsame : ∀ s', good s' → (s'.engine r.engine).files = (s.engine r.engine).files ∧
      (s'.engine r.engine).scopes = (s.engine r.engine).scopes) :
    Ends (r.compile program upTo) s (fun _ => good) fun fault => bad fault ∨
      ∃ e location, bad (.error e) ∧ fault = .error (e.locate location) := by
  refine .after rfl ?_
  rw [hdepth]
  refine .bind (h.attempt.mono (fun _ _ h => h) fun _ => .inl) ?_
  rintro (e | ⟨⟩) s1 ⟨hok, herror⟩
  · exact .of_error rfl (.inr ⟨e, _, herror e rfl, rfl⟩)
  · have hgood := hok () rfl
    obtain ⟨hfiles, hscopes⟩ := hsame s1 hgood
    refine .after rfl ?_
    rw [hfiles, hscopes, hdepth]
    simp only [ne_eq, not_true_eq_false, if_false]
    exact .pure hgood

theorem openEpoch_eq_ok (hepoch : s.epoch = none) : r.openEpoch s = .ok ()
    { ({ s with epoch := some {} } : Session).onEngine r.engine fun engine =>
        { engine with ownsEpoch := true } with
      history := s.history.push (.opened r.engine) } := by
  refine bind_eq_ok.mpr ⟨s, s, rfl, ?_⟩
  rw [hepoch]
  rfl

theorem openEpoch_of_none (hlt : r.engine.index < s.engines.size) (hepoch : s.epoch = none) :
    ∃ s', r.openEpoch s = .ok () s' ∧ s'.core r.engine = { s.core r.engine with
      engine := { (s.core r.engine).engine with ownsEpoch := true }
      epoch := some {} } :=
  ⟨_, openEpoch_eq_ok hepoch, core_onEngine (s := { s with epoch := some {} }) hlt fun engine =>
    { engine with ownsEpoch := true }⟩

theorem rewind_root (hscopes : (s.engine r.engine).scopes = [root])
    (hcursor : (s.tree.scope root).cursor = (s.tree.scope root).blocks.length) :
    ∃ visit, r.engine.endPass s = .ok () (s.withTree ((s.tree.rewound root).visited visit)) := by
  unfold endPass
  rw [currentScope_bind, currentScope_of_scopes hscopes]
  exact ⟨_, bind_eq_ok.mpr ⟨_, _,
    onTree_eq_ok.mpr ⟨_, rewindBlocks_eq_ok.mpr ⟨hcursor, rfl⟩, rfl⟩, rfl⟩⟩

theorem endPass_ends (hcore : s.core r.engine = ⟨engine, t, uid, sinks, epoch⟩)
    (hscopes : engine.scopes = [root])
    (hcursor : (t.scope root).cursor = (t.scope root).blocks.length)
    {after : Unit → Session → Prop} (hafter : ∀ visit s', (s'.finish r.engine pass).core r.engine =
      ⟨{ engine with running := none, completed := some pass }, (t.rewound root).visited visit, uid,
        sinks, epoch⟩ → after () s') : Ends r.engine.endPass s after bad := by
  obtain rfl : s.tree = t := congrArg Session.Core.tree hcore
  have hscopes' : (s.engine r.engine).scopes = [root] :=
    (congrArg (fun core => core.engine.scopes) hcore).trans hscopes
  obtain ⟨visit, hend⟩ := rewind_root hscopes' hcursor
  have hlt : r.engine.index < (s.withTree ((s.tree.rewound root).visited visit)).engines.size :=
    lt_of_scopes hscopes'
  refine .of_ok hend (hafter visit _ ?_)
  rw [core_finish hlt, core_withTree, hcore]

theorem length_scopes_of_core {core : Session.Core} (hcore : s.core r.engine = core)
    (hscopes : core.engine.scopes = [root]) : (s.engine r.engine).scopes.length = 1 :=
  congrArg List.length ((congrArg (fun core => core.engine.scopes) hcore).trans hscopes)

/-- The first pass over a program makes its blocks. -/
theorem declare_pass (hp : Opens program x)
    (hcore : s.core r.engine = ⟨engine, {}, uid, sinks, none⟩)
    (hscopes : engine.scopes = [root]) :
    Ends (r.runPass program 1 .declare) s (fun _ s' => ∃ t, t.Ready x ∧
      s'.core r.engine = ⟨{ engine with
        ownsEpoch := true
        running := none
        completed := some .declare }, t, uid, sinks, some {}⟩) bad := by
  have hlt := lt_of_core hcore hscopes
  have hcore1 := (s.start r.engine .declare).core_onEngine hlt fun engine =>
    { engine with running := some .declare }
  rw [core_start, hcore] at hcore1
  obtain ⟨s2, hopen, hcore2⟩ :=
    openEpoch_of_none (lt_of_core hcore1 hscopes) (congrArg Session.Core.epoch hcore1)
  rw [hcore1] at hcore2
  have htree : s2.tree = {} := congrArg Session.Core.tree hcore2
  have hatend : s2.AtEnd r.engine root := by
    refine ⟨⟨[], (congrArg (fun core => core.engine.scopes) hcore2).trans hscopes⟩, ?_, ?_, ?_, ?_⟩
    all_goals rw [htree]
    · exact zero_lt_one
    all_goals rfl
  obtain ⟨t, hrun, hgrown⟩ := hp.declares hatend
  rw [htree] at hgrown
  obtain ⟨hcursor, hready⟩ := hgrown.ready
  have hcore3 := core_withTree (s := s2) (e := r.engine) t
  rw [hcore2] at hcore3
  have hperform : Ends (r.performPass program 1 .declare) (s.start r.engine .declare)
      (fun _ s' => s' = s2.withTree t) bad :=
    performPass_ends hopen (.of_ok hrun rfl) fun s' hs' =>
      hs' ▸ length_scopes_of_core hcore3 hscopes
  refine runPass_ends hperform ?_
  rintro _ rfl
  exact endPass_ends hcore3 hscopes hcursor fun visit _ h => ⟨_, hready.taken_down visit, h⟩

/-- The second pass finds nothing to settle. -/
theorem settleEpoch_of_empty (hlt : r.engine.index < s.engines.size) (hepoch : s.epoch = some {})
    (howns : (s.engine r.engine).ownsEpoch = true) :
    ∃ s', r.settleEpoch s = .ok () s' ∧ s'.core r.engine = { s.core r.engine with
      engine := { (s.core r.engine).engine with ownsEpoch := false }
      epoch := none } := by
  have hclose : closeEpoch s = .ok ()
      { s with epoch := none, history := s.history.push .closing } := by
    rw [closeEpoch_apply, hepoch]
    rfl
  have hsettle : r.settleEpoch s = .ok () (onEngine
      { s with epoch := none, history := s.history.push .closing } r.engine fun engine =>
        { engine with ownsEpoch := false }) := by
    unfold settleEpoch
    rw [state_bind, howns]
    exact bind_eq_ok.mpr ⟨(), _, hclose, rfl⟩
  refine ⟨_, hsettle, ?_⟩
  exact core_onEngine
    (s := { s with epoch := none, history := s.history.push .closing }) hlt fun engine =>
      { engine with ownsEpoch := false }

variable {kept : String → Prop} {f : Fragment} {sections : List (String × Section)}
  {closed : Array String}

theorem closeSections_of_ok {e : EngineId} (hlt : e.index < s.engines.size)
    (h : closeAll s.sinks (s.engine e).sections = (sections, closed, .ok ())) :
    ∃ s', e.closeSections s = .ok () s' ∧ s'.core e = { s.core e with
      engine := { (s.core e).engine with sections }
      sinks := closed } := by
  have hclose : e.closeSections s = .ok () (onEngine { s with sinks := closed } e
      fun engine => { engine with sections }) := by
    refine bind_eq_ok.mpr ⟨s, s, rfl, ?_⟩
    rw [h]
    rfl
  refine ⟨_, hclose, ?_⟩
  exact core_onEngine (s := { s with sinks := closed }) hlt fun engine => { engine with sections }

section Later

variable (hcore : s.core r.engine = ⟨engine, t, uid, sinks, epoch⟩)
  (hscopes : engine.scopes = [root])
  (houtput : (engine.sections.any fun entry => entry.1 == programSection) = true)
  (hready : t.Ready x)

include hcore hscopes houtput hready

theorem stands_root : s.Stands r.engine root 1 x := by
  have hengine : s.engine r.engine = engine := congrArg Session.Core.engine hcore
  obtain rfl : s.tree = t := congrArg Session.Core.tree hcore
  refine ⟨⟨[], by rw [hengine, hscopes]⟩, hready.inside, zero_lt_one, ⟨[], ?_⟩, hready.fits,
    hready.unnamed, by rw [hengine, houtput]⟩
  rw [hready.cursor, hready.blocks, List.drop_zero, List.append_nil]

theorem perform_later (hpass : pass ≠ .declare) (hp : Replays r pass kept program f x) :
    ∃ t', (t'.scope root).cursor = (t'.scope root).blocks.length ∧ (t'.rewound root).Ready x ∧
      Ends (r.performPass program 1 pass) s (fun _ s' => s'.core r.engine = ⟨{ engine with
        running := some pass
        sections := modifyFirst programSection
          (fun entry => (f.lines uid).foldl accept entry) engine.sections },
        t', uid + f.labels, sinks, epoch⟩) bad := by
  have hlt := lt_of_core hcore hscopes
  have hcore1 := s.core_onEngine hlt fun engine => { engine with running := some pass }
  rw [hcore] at hcore1
  have hstands := stands_root hcore1 hscopes houtput hready
  obtain ⟨t1, hrun, hvisits⟩ := hp _ _ _ hstands
  have huid := congrArg Session.Core.nextUid hcore1
  have htree := congrArg Session.Core.tree hcore1
  dsimp only [core] at huid htree
  rw [huid] at hrun
  rw [htree] at hvisits
  obtain ⟨hcursor, hready'⟩ := hready.visited hvisits
  have hcore2 := core_writing hstands.lt_size (f.lines uid) f.labels t1
  rw [hcore1] at hcore2
  exact ⟨t1, hcursor, hready', performPass_ends (by rw [if_neg hpass]; rfl) (.of_ok hrun hcore2)
    fun s' hcore' => length_scopes_of_core hcore' hscopes⟩

omit hcore in
/-- The second pass over a program changes nothing but the epoch. -/
theorem resolve_pass (hcore : s.core r.engine = ⟨engine, t, uid, sinks, some {}⟩)
    (hp : Opens program x) (howns : engine.ownsEpoch = true) :
    Ends (r.runPass program 1 .resolve) s (fun _ s' => ∃ t', t'.Ready x ∧
      s'.core r.engine = ⟨{ engine with
        ownsEpoch := false
        running := none
        completed := some .resolve }, t', uid, sinks, none⟩) bad := by
  obtain ⟨t1, hcursor, hready1, hperform⟩ := perform_later (s := s.start r.engine .resolve)
    hcore hscopes houtput hready (by decide) hp.resolves
  simp only [Fragment.empty, List.foldl_nil, modifyFirst_self, add_zero] at hperform
  refine runPass_ends hperform fun s1 hcore1 => ?_
  have hlt1 := lt_of_core hcore1 hscopes
  have howns1 := congrArg (fun core => core.engine.ownsEpoch) hcore1
  obtain ⟨s2, hsettle, hcore2⟩ := settleEpoch_of_empty hlt1 (congrArg Session.Core.epoch hcore1)
    (howns1.trans howns)
  rw [hcore1] at hcore2
  exact .after hsettle (endPass_ends hcore2 hscopes hcursor fun visit _ h =>
    ⟨_, hready1.taken_down visit, h⟩)

theorem generate_pass (hp : Replays r .generate kept program f x)
    (hclosed : closeAll sinks (modifyFirst programSection
      (fun entry => (f.lines uid).foldl accept entry) engine.sections) =
        (sections, closed, .ok ())) :
    Ends (r.runPass program 1 .generate) s (fun _ s' => ∃ t', s'.core r.engine = ⟨{ engine with
        sections
        running := none
        completed := some .generate }, t', uid + f.labels, closed, epoch⟩) bad := by
  obtain ⟨t1, hcursor, -, hperform⟩ :=
    perform_later (s := s.start r.engine .generate) hcore hscopes houtput hready (by decide) hp
  refine runPass_ends hperform fun s1 hcore1 => ?_
  have hlt1 := lt_of_core hcore1 hscopes
  have hsinks1 : s1.sinks = sinks := congrArg Session.Core.sinks hcore1
  have hsections1 := congrArg (fun core => core.engine.sections) hcore1
  dsimp only [core] at hsections1
  obtain ⟨s2, hclose, hcore2⟩ := closeSections_of_ok hlt1 (by rw [hsinks1, hsections1, hclosed])
  rw [hcore1] at hcore2
  exact .after hclose (endPass_ends hcore2 hscopes hcursor fun visit _ h => ⟨_, h⟩)

end Later

end Runner

/-! ## Compiling code -/

/-- The sections of a new engine. -/
def emptySections : List (String × Section) :=
  [(programSection, { sink := ⟨0⟩ }), (dataSection, { sink := ⟨1⟩ }),
    (uninitialisedSection, { sink := ⟨2⟩ })]

theorem closeAll_emptySections (lines : List String) :
    closeAll #["", "", ""] (modifyFirst programSection
      (fun entry => lines.foldl accept entry) emptySections) =
        (emptySections, #[linesText lines, "", ""], .ok ()) := by
  have hsection : lines.foldl accept { sink := ⟨0⟩ } =
      { sink := ⟨0⟩, buffer := linesText lines } := by
    rw [foldl_accept rfl]
    simp
  have hsections : modifyFirst programSection
      (fun entry => lines.foldl accept entry) emptySections =
        (programSection, { sink := ⟨0⟩, buffer := linesText lines }) :: emptySections.tail := by
    simp [emptySections, modifyFirst, hsection]
  rw [hsections]
  simp [closeAll, close, emptySections]

def compiledText (depth : Nat) (statements : List Statement) : CompileM (Option String) := do
  let e ← startEngine defaultSections
  let program ← buildProgram statements
  (e.runner depth).compile program .generate
  e.output? programSection

theorem Code.compiles (c : Code) (settings : Settings) (depth : Nat) :
    ∃ s, compiledText depth c.statements { settings } =
      .ok (some (linesText (c.fragment.lines 0))) s := by
  generalize hr : runner ⟨0⟩ depth = r
  have hengine : r.engine = ⟨0⟩ := by rw [← hr]; rfl
  obtain ⟨s0, hstart, hcore⟩ : ∃ s0, startEngine defaultSections { settings } = .ok ⟨0⟩ s0 ∧
      s0.core r.engine =
        ⟨{ sections := emptySections, scopes := [root] }, {}, 0, #["", "", ""], none⟩ := by
    rw [hengine]
    exact ⟨_, rfl, rfl⟩
  have hopens := c.opens_program
  have hengine0 : s0.engine r.engine = _ := congrArg Session.Core.engine hcore
  have hpasses : Ends (r.runPasses c.program .generate 1 Pass.all) s0 (fun _ s3 => ∃ t,
      s3.core r.engine =
        ⟨{ sections := emptySections, scopes := [root], completed := some .generate },
        t, 0 + c.fragment.labels, #[linesText (c.fragment.lines 0), "", ""], none⟩)
      fun _ => False := by
    -- each pass is run because the one before is the last that was completed
    refine runPasses_cons_ends (by decide) (by rw [hengine0]; rfl) (declare_pass hopens hcore rfl)
      ?_
    rintro s1 ⟨t1, hready1, hcore1⟩
    have hengine1 : s1.engine r.engine = _ := congrArg Session.Core.engine hcore1
    refine runPasses_cons_ends (by decide) (by rw [hengine1]; rfl)
      (resolve_pass rfl (by decide) hready1 hcore1 hopens rfl) ?_
    rintro s2 ⟨t2, hready2, hcore2⟩
    have hengine2 : s2.engine r.engine = _ := congrArg Session.Core.engine hcore2
    exact runPasses_cons_ends (by decide) (by rw [hengine2]; rfl) (generate_pass hcore2 rfl
      (by decide) hready2 (c.generates r) (closeAll_emptySections _)) fun s3 hs3 => .pure hs3
  have hcompiles := compile_ends (by rw [hengine0]; rfl) hpasses (by
    rintro s' ⟨t, hcore'⟩
    have hengine' : s'.engine r.engine = _ := congrArg Session.Core.engine hcore'
    rw [hengine', hengine0]
    exact ⟨rfl, rfl⟩)
  obtain ⟨_, s3, hcompile, t3, hcore3⟩ := hcompiles.exists_ok (by simp)
  have hengine3 : s3.engine r.engine = _ := congrArg Session.Core.engine hcore3
  refine ⟨s3, bind_eq_ok.mpr ⟨_, s0, hstart, ?_⟩⟩
  refine bind_eq_ok.mpr ⟨_, s0, c.buildProgram_statements s0, ?_⟩
  rw [hr]
  refine bind_eq_ok.mpr ⟨(), s3, hcompile, ?_⟩
  have hsinks : s3.sinks = _ := congrArg Session.Core.sinks hcore3
  have houtput : r.engine.output? programSection s3 =
      .ok (((s3.engine r.engine).sections.find? fun entry => entry.1 == programSection).map
        fun entry => s3.sinks.getD entry.2.sink.index "") s3 := rfl
  rw [← hengine, houtput, hengine3, hsinks]
  rfl

/-- Compiling succeeds. However many rounds the code may make, some number of steps comes exactly as
    far; however many steps are made, the code comes at least as far with some number of rounds. -/
theorem compiled_code_runs (o : Oracle) (settings : Settings) (depth : Nat) (c : Code)
    (h : c.Clean) :
    ∃ text s, compiledText depth c.statements { settings } = .ok (some text) s ∧ (∀ limit, ∃ steps,
        Machine.progressIn o (textLines text) steps = c.progressIn o limit) ∧
      ∀ steps, ∃ limit,
        (Machine.progressIn o (textLines text) steps).Within (c.progressIn o limit) := by
  obtain ⟨s, hcompiled⟩ := c.compiles settings depth
  refine ⟨_, s, hcompiled, ?_⟩
  rw [textLines_linesText (c.isTidy_fragment h 0).one_line]
  exact ⟨fun limit => c.exists_steps o limit h 0, fun steps => c.exists_rounds o steps h 0⟩

def exceptFifth : Oracle where
  holds _ asked code := xor (asked % 5 != 4) ((code.toList.takeWhile (· == 'n')).length % 2 == 1)
  inverts ran asked code := by
    unfold invertCondition
    split
    · rename_i rest hcode
      rw [hcode, String.toList_ofList, List.takeWhile_cons_of_pos (by rfl), List.length_cons]
      rcases Nat.mod_two_eq_zero_or_one (rest.takeWhile (· == 'n')).length with hmod | hmod
      · simp [Nat.add_mod, hmod]
      · simp [Nat.add_mod, hmod]
    · rename_i hcode
      have hnone : code.toList.takeWhile (· == 'n') = [] := by
        cases hlist : code.toList with
        | nil => rfl
        | cons c rest =>
          apply List.takeWhile_cons_of_neg
          rw [beq_iff_eq]
          rintro rfl
          exact hcode rest hlist
      have hchars : ("n" ++ code).toList = 'n' :: code.toList := by simp [String.toList_append]
      rw [hchars, List.takeWhile_cons_of_pos (by rfl), hnone]
      simp

def nestedCode : Code :=
  .whileLoop "l" (.ifThen "nz" (.instruction "test eax, eax" .done) (.instruction "dec eax" .done)
      (.instruction "cmp ecx, 2" .done))
    (.ifElse "e" (.instruction "cmp edx, 3" .done)
      (.doLoop .done (.instruction "inc ecx" .done) .done "nc" (.instruction "cmp ecx, eax" .done)
        .done)
      (.instruction "jmp rdx" .done) .done)
    (.instruction "ret" .done)

theorem IsOpaque.of_no_jump {line : String} (hbreak : '\n' ∉ line.toList)
    (hlabel : placedLabel? line = none) (hjump : jump? line = none) : IsOpaque line where
  one_line := hbreak
  no_label := hlabel
  no_jump code label h := by
    rw [hjump] at h
    cases h

theorem isOpaque_jmp_rdx : IsOpaque "jmp rdx" where
  one_line := by decide
  no_label := by decide
  no_jump code label h := by
    have hread : jump? "jmp rdx" = some ("mp", "rdx") := by decide
    rw [hread] at h
    cases h
    rintro ⟨uid, key, -, hlabel⟩
    have hchars := congrArg String.toList hlabel
    rw [toList_controlLabel] at hchars
    cases hchars

theorem nestedCode_clean : nestedCode.Clean := by
  have hline : ∀ line ∈ ["test eax, eax", "dec eax", "cmp ecx, 2", "cmp edx, 3", "inc ecx",
      "cmp ecx, eax", "ret"], IsOpaque line := by
    intro line hline
    have hall : ∀ line ∈ ["test eax, eax", "dec eax", "cmp ecx, 2", "cmp edx, 3", "inc ecx",
        "cmp ecx, eax", "ret"], '\n' ∉ line.toList ∧ placedLabel? line = none ∧
          jump? line = none := by decide
    obtain ⟨hbreak, hlabel, hjump⟩ := hall line hline
    exact .of_no_jump hbreak hlabel hjump
  have hcode : ∀ code ∈ ["l", "nz", "e", "nc"], IsConditionCode code := by
    intro code hcode
    have hall : ∀ code ∈ ["l", "nz", "e", "nc"], '\n' ∉ code.toList ∧ code ≠ "mp" ∧
        invertCondition code ≠ "mp" := by decide
    obtain ⟨hbreak, hmp, hinverse⟩ := hall code hcode
    exact ⟨hbreak, hmp, hinverse⟩
  simp only [nestedCode, Code.Clean]
  refine ⟨hcode _ (by decide), ?_, ?_, ?_⟩
  · exact ⟨hcode _ (by decide), ⟨hline _ (by decide), trivial⟩, ⟨hline _ (by decide), trivial⟩,
      hline _ (by decide), trivial⟩
  · exact ⟨hcode _ (by decide), ⟨hline _ (by decide), trivial⟩,
      ⟨hcode _ (by decide), trivial, ⟨hline _ (by decide), trivial⟩, trivial,
        ⟨hline _ (by decide), trivial⟩, trivial⟩, ⟨isOpaque_jmp_rdx, trivial⟩, trivial⟩
  · exact ⟨hline _ (by decide), trivial⟩

/-- The loop makes two rounds here, with one round of the loop inside it each. -/
theorem compiled_code_runs_nested : nestedCode.Clean ∧ nestedCode.progressIn exceptFifth 2 =
      ⟨["test eax, eax", "cmp ecx, 2", "cmp edx, 3", "inc ecx", "cmp ecx, eax", "test eax, eax",
        "dec eax", "cmp ecx, 2", "cmp edx, 3", "inc ecx", "cmp ecx, eax", "test eax, eax",
        "cmp ecx, 2", "ret"], true⟩ ∧
    ∃ text s, compiledText 0 nestedCode.statements {} = .ok (some text) s ∧
      (∀ limit, ∃ steps, Machine.progressIn exceptFifth (textLines text) steps =
        nestedCode.progressIn exceptFifth limit) ∧
      ∀ steps, ∃ limit, (Machine.progressIn exceptFifth (textLines text) steps).Within
        (nestedCode.progressIn exceptFifth limit) :=
  ⟨nestedCode_clean, by decide +kernel,
    compiled_code_runs exceptFifth {} 0 nestedCode nestedCode_clean⟩

end StagedAsm
