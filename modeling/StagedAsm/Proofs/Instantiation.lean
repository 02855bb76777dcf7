import StagedAsm.Proofs.Settling
import StagedAsm.Run.Lookup

/-!
# Looking names up

To look a path up an engine may have to make instances, and making an instance runs it. So where
looking up leads depends on where `Runner.advance` leads; apart from that it is a sequence of steps.
-/

namespace StagedAsm

variable {s s' : Session} {snapshot : Snapshot} {id : TemplateId} {template : Template}
  {arguments : List Symbol} {made : Instance}

theorem Runner.currentPass_of_find {r : Runner} {path : Path} {symbol : Symbol}
    (h : r.find path s = .ok symbol s') : (s.engine r.engine).currentPass ≠ .declare := by
  unfold Runner.find at h
  rw [get_bind_eq_ok] at h
  obtain ⟨_, _, hforbid, -⟩ := bind_eq_ok.mp h
  exact (EngineId.forbidPass_eq_ok.mp hforbid).1

def Runner.parametersOf (r : Runner) (name : String) (s : Session) : List Parameter :=
  match r.find (Path.ofName name) s with
  | .ok (.function _ parameters) _ => parameters.getD []
  | _ => []

variable {R : Session → Session → Prop}

/-! ## Making instances -/

theorem fork_apply (snapshot : Snapshot) (s : Session) :
    fork snapshot s = .ok (⟨s.engines.size⟩, ⟨s.tree.size⟩) (s.forked snapshot) := rfl

theorem fork_eq_ok {e : EngineId} {scope : ScopeId} (h : fork snapshot s = .ok (e, scope) s') :
    e = ⟨s.engines.size⟩ ∧ ∃ engine : Engine, engine.IsNew ∧
      Quiet { s with engines := s.engines.push engine } s' := by
  rw [fork_apply] at h
  cases h
  exact ⟨rfl, _, Engine.isNew_ofSnapshot snapshot ⟨s.tree.size⟩, s.quiet_forked snapshot⟩

theorem happened_apply (event : Event) (s : Session) :
    happened event s = .ok () { s with history := s.history.push event } := rfl

/-- The engine only works in one scope. -/
def EngineId.WorksIn (e : EngineId) (id : ScopeId) (s s' : Session) : Prop :=
  (s.engine e).currentScope = id → ScopeWork id s s'

namespace EngineId

variable {e : EngineId} {id : ScopeId}

instance : Std.Refl (e.WorksIn id) := ⟨fun s _ => refl_of (ScopeWork id) s⟩

instance : IsTrans Session (e.WorksIn id) where
  trans a b c h h' hscope := by
    have hengine : b.engine e = a.engine e := by
      rw [Session.engine, (h hscope).calm.engines, Session.engine]
    exact trans_of (ScopeWork id) (h hscope) (h' (hengine ▸ hscope))

instance : AdmitsWork e (e.WorksIn id) where
  calm h _ := AdmitsCalm.calm h
  work h hscope := .of_tree (hscope ▸ h)

end EngineId

theorem Session.currentScope_forked (s : Session) (snapshot : Snapshot) :
    ((s.forked snapshot).engine ⟨s.engines.size⟩).currentScope = ⟨s.tree.size⟩ := by
  simp [Session.engine, Session.forked, Engine.currentScope, Engine.ofSnapshot]

theorem works_declareAll (s : Session) (snapshot : Snapshot) (bindings : List (String × Symbol)) :
    ScopeWork ⟨s.tree.size⟩ (s.forked snapshot)
      (leaves ((⟨s.engines.size⟩ : EngineId).declareAll bindings) (s.forked snapshot)) := by
  have hmoves : Moves (EngineId.WorksIn ⟨s.engines.size⟩ ⟨s.tree.size⟩)
      ((⟨s.engines.size⟩ : EngineId).declareAll bindings) := EngineId.moves_declareAll _ bindings
  exact hmoves _ (s.currentScope_forked snapshot)

theorem ScopeWork.happened {id : ScopeId} (h : ScopeWork id s s') (event : Event) :
    ScopeWork id { s with history := s.history.push event }
      { s' with history := s'.history.push event } :=
  ⟨h.tree, h.calm.toQuiet.happened event, h.calm.same_tree⟩

theorem lt_of_declared (h : (s.template id).declaration = some snapshot) :
    id.index < s.templates.size := by
  refine Nat.lt_of_not_le fun hle => ?_
  rw [Session.template_of_size_le hle] at h
  cases h

theorem prepareInstance_eq_ok
    (h : Runner.prepareInstance id template snapshot arguments s = .ok made s') :
    ScopeWork ⟨s.tree.size⟩
        ({ s with history := s.history.push (.building id arguments) }.forked snapshot) s' ∧
      made.engine = ⟨s.engines.size⟩ ∧ made.isBusy = false ∧ made.arguments = arguments ∧
      made.mangled = mangledName s' template.name arguments := by
  obtain ⟨⟨e, scope⟩, s1, hfork, h⟩ := bind_eq_ok.mp h
  rw [fork_apply] at hfork
  cases hfork
  obtain ⟨_, s2, hdeclare, h⟩ := bind_eq_ok.mp h
  obtain ⟨_, s3, hrecord, h⟩ := bind_eq_ok.mp h
  obtain ⟨_, s4, hbegin, h⟩ := bind_eq_ok.mp h
  obtain ⟨program, s5, hbuild, h⟩ := bind_eq_ok.mp h
  obtain ⟨_, _, hget, h⟩ := bind_eq_ok.mp h
  cases hbegin
  cases hget
  cases h
  have h2 := works_declareAll s snapshot (template.parameters.zip arguments)
  rw [leaves_of_ok hdeclare] at h2
  have h3 : ScopeWork ⟨s.tree.size⟩ s2 s3 := (moves_record _).of_ok hrecord
  have hsetUp := (trans_of (ScopeWork ⟨s.tree.size⟩) h2 h3).happened (.building id arguments)
  have hbuilt : ScopeWork ⟨s.tree.size⟩ _ s' := (moves_buildProgram _).of_ok hbuild
  exact ⟨trans_of (ScopeWork ⟨s.tree.size⟩) hsetUp hbuilt, rfl, rfl, rfl, rfl⟩

theorem prepared_of_ok (h : Runner.prepareInstance id template snapshot arguments s = .ok made s') :
    Prepared s s' id made ∧ made.arguments = arguments ∧
      made.mangled = mangledName s' template.name arguments := by
  obtain ⟨hworks, hengine, hbusy, rfl, hmangled⟩ := prepareInstance_eq_ok h
  have hquiet := trans_of Quiet (Session.quiet_forked _ _) hworks.quiet
  exact ⟨⟨⟨_, Engine.isNew_ofSnapshot _ _, hquiet⟩, hengine, hbusy⟩, rfl, hmangled⟩

theorem step_of_prepare_error [AdmitsForks R] {fault : Fault}
    (hdeclared : (s.template id).declaration = some snapshot)
    (h : Runner.prepareInstance id (s.template id) snapshot arguments s = .error fault s') :
    R s s' := by
  have hworks := works_declareAll s snapshot ((s.template id).parameters.zip arguments)
  rw [← leaves_of_error h, Runner.prepareInstance, leaves_bind_of_ok (fork_apply snapshot s)]
  cases hdeclare : (⟨s.engines.size⟩ : EngineId).declareAll
      ((s.template id).parameters.zip arguments) (s.forked snapshot) with
  | error fault s2 =>
    rw [leaves_of_error hdeclare] at hworks
    rw [leaves_bind_of_error hdeclare]
    exact AdmitsForks.fork hdeclared hworks
  | ok _ s2 =>
    rw [leaves_of_ok hdeclare] at hworks
    rw [leaves_bind_of_ok hdeclare]
    obtain ⟨s3, hrecord⟩ : ∃ s3, record (.building (s.template id).name) s2 = .ok () s3 :=
      ⟨_, rfl⟩
    -- What is left to fail is the building of the body.
    have hfails : ¬ (s.template id).Builds := by
      intro hbuilds
      obtain ⟨program, s5, hbuild⟩ :=
        hbuilds { s3 with history := s3.history.push (.building id arguments) }
      have hok : Runner.prepareInstance id (s.template id) snapshot arguments s = .ok _ s5 :=
        bind_eq_ok.mpr ⟨_, _, fork_apply snapshot s, bind_eq_ok.mpr ⟨_, s2, hdeclare,
          bind_eq_ok.mpr ⟨_, s3, hrecord, bind_eq_ok.mpr ⟨(), _, rfl,
            bind_eq_ok.mpr ⟨program, s5, hbuild, rfl⟩⟩⟩⟩⟩
      cases h.symm.trans hok
    have hrecorded : ScopeWork ⟨s.tree.size⟩ s2 s3 := (moves_record _).of_ok hrecord
    have hsetUp := (trans_of (ScopeWork ⟨s.tree.size⟩) hworks hrecorded).happened
      (.building id arguments)
    have hreject : R s { s with history := s.history.push (.building id arguments) } :=
      AdmitsPlain.plain ⟨.reject id arguments hfails, rfl, rfl, fun h => h⟩
    refine trans_of R hreject (AdmitsForks.fork hdeclared ?_)
    rw [leaves_bind_of_ok hrecord, leaves_bind_of_ok (happened_apply _ s3)]
    exact trans_of (ScopeWork ⟨s.tree.size⟩) hsetUp
      (Moves.bind (moves_buildProgram _) (fun _ => .returns .look) _)

namespace Runner

variable (r : Runner)

/-- Arguments that led to no instance lead to a new one. -/
theorem step_createInstance [AdmitsForks R] (hadvance : ∀ id pass, Moves R (r.advance id pass))
    (hfresh : s.findInstance? (s.template id).memo arguments = none) :
    R s (leaves (r.createInstance id arguments) s) := by
  have hlook : (get : CompileM Session) s = .ok s s := rfl
  rw [createInstance, leaves_bind_of_ok hlook]
  dsimp only
  split
  · exact refl_of R s
  · rename_i snapshot hdeclared
    have hlt := lt_of_declared hdeclared
    cases hprepare : prepareInstance id (s.template id) snapshot arguments s with
    | error fault s1 =>
      rw [leaves_bind_of_error hprepare]
      exact step_of_prepare_error hdeclared hprepare
    | ok made s1 =>
      -- setting up and enlisting are one step; only then the instance runs
      obtain ⟨hworks, hengine, hbusy, rfl, -⟩ := prepareInstance_eq_ok hprepare
      let pass := (s1.engine r.engine).currentPass
      rw [leaves_bind_of_ok hprepare]
      have hmake : R s (s1.enlist id made pass) :=
        AdmitsForks.make hlt hfresh hdeclared hengine hbusy hworks
      refine trans_of R hmake ?_
      exact Moves.bind (hadvance ⟨s1.instances.size⟩ pass) (fun _ => .pure _) _

theorem moves_instantiate [AdmitsForks R]
    (hadvance : ∀ id pass, Moves R (r.advance id pass)) (id : TemplateId)
    (arguments : List Symbol) : Moves R (r.instantiate id arguments) := by
  refine .look_bind fun s => ?_
  dsimp only
  split
  · exact refl_of R s
  · split
    · rename_i existing hfound
      exact AdmitsPlain.plain ⟨.use id arguments existing hfound, rfl, rfl, fun h => h⟩
    · rename_i hfresh
      exact r.step_createInstance hadvance hfresh

/-! ## Paths -/

theorem moves_member? [IsPreorder Session R] (id : ScopeId) (name : String) :
    Moves R (member? id name) := .returns .look

variable {path : Path}

theorem moves_findFirst? [IsPreorder Session R] (hfrom : ∀ scope, Moves R (r.findFrom? scope path))
    (scopes : List ScopeId) : Moves R (r.findFirst? path scopes) := by
  induction scopes with
  | nil => exact .pure _
  | cons scope rest ih =>
    refine .bind (hfrom scope) fun _ => ?_
    split
    · exact .pure _
    · exact ih

theorem moves_find_of [IsPreorder Session R] (hfrom : ∀ scope, Moves R (r.findFrom? scope path)) :
    Moves R (r.find path) := by
  have hfind? : Moves R (r.find? path) := by
    refine .seq r.engine.moves_state <| .bind (r.moves_findFirst? hfrom _) fun _ => ?_
    split
    · exact .pure _
    · exact .seq (.returns .look) <| r.moves_findFirst? hfrom _
  refine .seq .look <| .seq (r.engine.moves_forbidPass _ _) <| .bind hfind? fun _ => ?_
  split
  · exact .pure _
  · exact .seq .look <| .fail _

theorem moves_find_plain [IsPreorder Session R]
    (hplain : ∀ segment ∈ path, segment.isTemplated = false) : Moves R (r.find path) := by
  refine r.moves_find_of fun scope => ?_
  induction path generalizing scope with
  | nil => exact .pure _
  | cons first rest ih =>
    have hfirst : first.isTemplated = false := hplain first List.mem_cons_self
    refine .seq .look <| .ite (.ite (moves_member? _ _) (.pure _)) ?_
    rw [if_neg (by simp [hfirst])]
    refine .ite (moves_member? _ _) (.bind .look fun _ => ?_)
    split
    · exact ih (fun segment hsegment => hplain segment (List.mem_cons_of_mem _ hsegment)) _
    · exact .pure _

section Paths

variable [AdmitsDeeds r.engine R] (hadvance : ∀ id pass, Moves R (r.advance id pass))

include hadvance

theorem moves_segmentInstance? (scope : ScopeId) (segment : Segment) :
    Moves R (r.segmentInstance? scope segment) :=
  .bind (moves_member? scope _) fun found => by
    split
    · exact .pure _
    · have : AdmitsForks R := AdmitsDeeds.forks r.engine
      exact .seq (r.moves_instantiate hadvance _ _) <| .returns .look
    · exact .fail _

theorem moves_findFrom? (scope : ScopeId) (path : Path) : Moves R (r.findFrom? scope path) := by
  induction path generalizing scope with
  | nil => exact .pure _
  | cons first rest ih =>
    refine .seq .look <| .ite (.ite (moves_member? _ _) (.pure _)) (.ite ?_ (.ite ?_ ?_))
    · refine .bind (r.moves_segmentInstance? hadvance scope first) fun _ => ?_
      split
      · exact .pure _
      · exact .ite (moves_member? _ _) (.seq .look <| ih _)
    · exact moves_member? _ _
    · refine .bind .look fun _ => ?_
      split
      · exact ih _
      · exact .pure _

theorem moves_find (path : Path) : Moves R (r.find path) :=
  r.moves_find_of fun scope => r.moves_findFrom? hadvance scope path

end Paths

end Runner

end StagedAsm
