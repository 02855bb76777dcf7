import StagedAsm.Proofs.InstanceGeneration

/-!
# The order of passes

An engine runs its passes in order and each to its end once. A pass that failed is run again when
the engine is next asked to go on. `Session.Orderly` says what `Session.begun` tells in every
session.
-/

namespace StagedAsm

open Session

def Pass.previous? : Pass → Option Pass
  | .declare => none
  | .resolve => some .declare
  | .generate => some .resolve

/-- The number of passes completed with a last one. -/
def passesUpTo : Option Pass → Nat
  | none => 0
  | some pass => pass.rank + 1

theorem passesUpTo_previous? (pass : Pass) : passesUpTo pass.previous? = pass.rank := by
  cases pass <;> rfl

variable {pass : Pass} {s s' : Session}

theorem eq_previous?_of_passesUpTo {completed : Option Pass}
    (h : passesUpTo completed = pass.rank) : completed = pass.previous? := by
  cases pass <;> rcases completed with _ | (_ | _ | _) <;> first | rfl | exact nomatch h

theorem Engine.hasCompleted_iff {engine : Engine} :
    engine.hasCompleted pass = true ↔ pass.rank < passesUpTo engine.completed := by
  unfold hasCompleted
  split
  · rename_i done hdone
    rw [hdone, decide_eq_true_eq]
    show pass.rank ≤ done.rank ↔ pass.rank < done.rank + 1
    omega
  · rename_i hnone
    simp [hnone, passesUpTo]

theorem Pass.take_succ_rank (pass : Pass) :
    Pass.all.take (pass.rank + 1) = Pass.all.take pass.rank ++ [pass] := by
  cases pass <;> rfl

def Event.finish? (e : EngineId) : Event → Option Pass
  | .finished e' pass => if e' = e then some pass else none
  | _ => none

theorem Event.finish?_of_not_aboutRun {event : Event} (h : event.aboutRun = false) (e : EngineId) :
    event.finish? e = none := by
  cases event <;> simp_all [aboutRun, finish?]

namespace Session

/-- The passes that an engine began to run, in order. -/
def runsOf (s : Session) (e : EngineId) : List PassRun :=
  s.begun.toList.filter fun run => run.engine = e

/-- The passes that an engine finished, in order. -/
def finishesOf (s : Session) (e : EngineId) : List Pass :=
  s.history.toList.filterMap (Event.finish? e)

structure InOrder (s : Session) (e : EngineId) : Prop where
  continues : ∀ run ∈ s.runsOf e, run.completed = run.pass.previous?
  sorted : (s.runsOf e).Pairwise fun a b => a.pass ≤ b.pass
  bounded : ∀ run ∈ s.runsOf e, run.pass.rank ≤ passesUpTo (s.engine e).completed
  finishes : s.finishesOf e = Pass.all.take (passesUpTo (s.engine e).completed)

def Orderly (s : Session) : Prop := ∀ e, s.InOrder e

theorem orderly_new (settings : Settings) : Orderly { settings } := by
  intro e
  have hruns : ({ settings } : Session).runsOf e = [] := rfl
  have hcompleted : (({ settings } : Session).engine e).completed = none := by
    rw [engine_of_size_le (Nat.zero_le _)]
    rfl
  have hfinishes : ({ settings } : Session).finishesOf e = [] := rfl
  constructor <;> simp [hruns, hcompleted, hfinishes, passesUpTo]

variable {s s' : Session}

variable {e : EngineId} {pass : Pass}

theorem InOrder.congr (hs : s.InOrder e) (hruns : s'.runsOf e = s.runsOf e)
    (hfinishes : s'.finishesOf e = s.finishesOf e)
    (hcompleted : (s'.engine e).completed = (s.engine e).completed) : s'.InOrder e where
  continues := hruns ▸ hs.continues
  sorted := hruns ▸ hs.sorted
  bounded := by rw [hruns, hcompleted]; exact hs.bounded
  finishes := by rw [hfinishes, hcompleted, hs.finishes]

theorem Orderly.congr (hs : s.Orderly) (hbegun : s'.begun = s.begun)
    (hfinishes : ∀ e, s'.finishesOf e = s.finishesOf e)
    (hcompleted : ∀ e, (s'.engine e).completed = (s.engine e).completed) : s'.Orderly :=
  fun e => (hs e).congr (by rw [runsOf, hbegun, runsOf]) (hfinishes e) (hcompleted e)

theorem finishesOf_of_push {event : Event} (hhistory : s'.history = s.history.push event)
    (hevent : event.finish? e = none) : s'.finishesOf e = s.finishesOf e := by
  simp [finishesOf, hhistory, hevent]

theorem completed_push {new : Engine} (hnew : new.IsNew)
    (hengines : s'.engines = s.engines.push new) (e : EngineId) :
    (s'.engine e).completed = (s.engine e).completed := by
  rw [engine, hengines, getD_push]
  split
  · rename_i heq
    rw [hnew.2.2, engine_of_size_le (Nat.le_of_eq heq.symm)]
    rfl
  · rfl

theorem Orderly.start (hs : s.Orderly) (hnext : (s.engine e).completed = pass.previous?) :
    (s.start e pass).Orderly := by
  intro e'
  by_cases he : e' = e
  · subst he
    have hruns : (s.start e' pass).runsOf e' =
        s.runsOf e' ++ [⟨e', pass, (s.engine e').completed⟩] := by
      simp [runsOf, Session.start]
    have hbounded := (hs e').bounded
    rw [hnext, passesUpTo_previous?] at hbounded
    constructor
    case continues =>
      rw [hruns, List.forall_mem_append]
      exact ⟨(hs e').continues, by simpa using hnext⟩
    case sorted =>
      rw [hruns, List.pairwise_append]
      refine ⟨(hs e').sorted, by simp, fun a ha b hb => ?_⟩
      obtain rfl := List.mem_singleton.mp hb
      exact hbounded a ha
    case bounded =>
      rw [hruns, List.forall_mem_append]
      refine ⟨(hs e').bounded, ?_⟩
      show ∀ run ∈ [_], _ ≤ passesUpTo (s.engine e').completed
      rw [hnext, passesUpTo_previous?]
      simp
    case finishes => exact (hs e').finishes
  · refine (hs e').congr ?_ rfl rfl
    simp [runsOf, Session.start, Ne.symm he]

theorem Orderly.finish (hs : s.Orderly) (hlt : e.index < s.engines.size)
    (hnext : (s.engine e).completed = pass.previous?) : (s.finish e pass).Orderly := by
  intro e'
  have hengine := s.engine_modify e e'
    (fun engine => { engine with running := none, completed := some pass })
  by_cases he : e' = e
  · subst he
    have hcompleted : ((s.finish e' pass).engine e').completed = some pass := by
      rw [if_pos ⟨rfl, hlt⟩] at hengine
      exact congrArg Engine.completed hengine
    have hruns : (s.finish e' pass).runsOf e' = s.runsOf e' := rfl
    have hfinishes : (s.finish e' pass).finishesOf e' = s.finishesOf e' ++ [pass] := by
      simp [finishesOf, finish, Event.finish?]
    have hbounded := (hs e').bounded
    have hold := (hs e').finishes
    rw [hnext, passesUpTo_previous?] at hbounded hold
    constructor
    case continues => exact (hs e').continues
    case sorted => exact (hs e').sorted
    case bounded =>
      rw [hruns, hcompleted]
      exact fun run hrun => Nat.le_succ_of_le (hbounded run hrun)
    case finishes => rw [hfinishes, hcompleted, hold, passesUpTo, Pass.take_succ_rank]
  · rw [if_neg fun h => he h.1] at hengine
    refine (hs e').congr rfl ?_ (congrArg Engine.completed hengine)
    exact finishesOf_of_push rfl (by simp [Event.finish?, Ne.symm he])

end Session

/-! ## Steps -/

theorem Step.begun_eq (h : Step s s') : s'.begun = s.begun := by
  cases h with
  | quiet h => exact h.begun
  | make id made pass hlt hfresh h =>
    obtain ⟨engine, -, hquiet⟩ := h.quiet
    exact hquiet.begun
  | _ => rfl

theorem Session.Orderly.step (hs : s.Orderly) (h : Step s s') : s'.Orderly := by
  rcases h.still_or with hstill | ⟨engine, hnew, rfl⟩ | ⟨s1, id, made, pass, hmake, rfl⟩
  · refine hs.congr h.begun_eq (fun e => ?_) fun e => ?_
    · rcases hstill.history with hhistory | ⟨event, hhistory, habout⟩
      · rw [finishesOf, hhistory, finishesOf]
      · exact finishesOf_of_push hhistory (Event.finish?_of_not_aboutRun habout e)
    · rw [engine, hstill.engines, engine]
  · exact hs.congr rfl (fun _ => rfl) (completed_push hnew rfl)
  · obtain ⟨engine, hnew, hquiet⟩ := hmake.quiet
    refine hs.congr h.begun_eq (fun e => ?_) (completed_push hnew hquiet.engines)
    rw [finishesOf, hmake.history_eq pass, List.filterMap_append, finishesOf]
    simp [Event.finish?]

theorem Session.Orderly.modifyEngine (hs : s.Orderly) (e : EngineId) {f : Engine → Engine}
    (hf : ∀ engine, (f engine).completed = engine.completed) :
    Session.Orderly { s with engines := s.engines.modify e.index f } := by
  refine hs.congr rfl (fun _ => rfl) fun e' => ?_
  rw [s.engine_modify e e' f]
  split
  · rename_i heq
    rw [hf, heq.1]
  · rfl

def Orders (e : EngineId) (s s' : Session) : Prop :=
  Works e s s' ∧ (s.Staffed → s.MayRun e → s.Orderly → s'.Orderly)

namespace Orders

variable {e : EngineId} {s s' : Session}

instance : IsPreorder Session (Orders e) where
  refl s := ⟨refl_of (Works e) s, fun _ _ hs => hs⟩
  trans _ _ _ h h' := by
    refine ⟨trans_of (Works e) h.1 h'.1, fun hs he horder => ?_⟩
    obtain ⟨hs1, he1, _⟩ := h.1.next hs he
    exact h'.2 hs1 he1 (h.2 hs he horder)

instance : Admits (Orders e) where
  quiet h := ⟨.of_step (.quiet h), fun _ _ hs => hs.step (.quiet h)⟩
  step h := ⟨.of_step h, fun _ _ hs => hs.step h⟩

theorem of_engine {f : Engine → Engine} (hf : ∀ engine, (f engine).completed = engine.completed) :
    Orders e s { s with engines := s.engines.modify e.index f } :=
  ⟨.of_engine hf, fun _ _ hs => hs.modifyEngine e hf⟩

instance : AdmitsEngine e (Orders e) where
  engine _ hf := of_engine fun engine => (hf engine).2.2

end Orders

/-! ## Passes -/

/-- Passes stay in order while an engine runs that is there. -/
def StaysOrderly (e : EngineId) (s s' : Session) : Prop :=
  s.Staffed → s.Held e → s.Orderly → s'.Orderly

namespace Runner

variable (r : Runner)

theorem orders_openEpoch : Moves (Orders r.engine) r.openEpoch := by
  refine fun s => ⟨r.works_openEpoch s, fun _ _ hs => ?_⟩
  rw [openEpoch, leaves_bind_of_ok (rfl : (get : CompileM Session) s = .ok s s)]
  split
  · refine Session.Orderly.congr (s := { s with
        engines := s.engines.modify r.engine.index fun engine =>
          { engine with ownsEpoch := true } })
      (hs.modifyEngine r.engine fun _ => rfl) rfl (fun e => ?_) fun _ => rfl
    exact finishesOf_of_push rfl rfl
  · exact hs

theorem orders_settleEpoch : Moves (Orders r.engine) r.settleEpoch :=
  .seq r.engine.moves_state <|
    .ite (.seq moves_closeEpoch <| .modify fun _ => .of_engine fun _ => rfl) (.pure _)

variable (hadvance : ∀ id pass, Moves (Orders r.engine) (r.advance id pass))

include hadvance

variable {pass : Pass} {s : Session}

theorem staysOrderly_runPass (program : Program) (depth : Nat)
    (hnext : (s.engine r.engine).completed = pass.previous?) :
    StaysOrderly r.engine s (leaves (r.runPass program depth pass) s) := by
  intro hs he horder
  have hpending : (s.engine r.engine).hasCompleted .generate = false := by
    rw [← Bool.not_eq_true, Engine.hasCompleted_iff, hnext, passesUpTo_previous?]
    cases pass <;> decide
  have hperforms : Moves (Orders r.engine) (r.performPass program depth pass) :=
    r.moves_performPass hadvance (.modify fun _ => .of_engine fun _ => rfl) r.orders_openEpoch
  have hleaves : Moves (Orders r.engine) (r.leavePass pass) :=
    r.moves_leavePass r.orders_settleEpoch pass
  have hstart : r.beginPass pass s = .ok () (s.start r.engine pass) := rfl
  have hworks0 : Works r.engine s (s.start r.engine pass) := .start s r.engine pass
  obtain ⟨hs0, he0, _⟩ := hworks0.next hs (Runs.mayRun he hpending)
  have horder0 := horder.start hnext
  rw [runPass, leaves_bind_of_ok hstart]
  cases hperform : r.performPass program depth pass (s.start r.engine pass) with
  | error fault s1 =>
    rw [leaves_bind_of_error hperform]
    exact (hperforms.of_error hperform).2 hs0 he0 horder0
  | ok _ s1 =>
    rw [leaves_bind_of_ok hperform]
    obtain ⟨hworks1, horders1⟩ := hperforms.of_ok hperform
    obtain ⟨hs1, he1, _, hcompleted1⟩ := hworks1.next hs0 he0
    have horder1 := horders1 hs0 he0 horder0
    cases hleave : r.leavePass pass s1 with
    | error fault s2 =>
      rw [leaves_bind_of_error hleave]
      exact (hleaves.of_error hleave).2 hs1 he1 horder1
    | ok _ s2 =>
      rw [leaves_bind_of_ok hleave]
      obtain ⟨hworks2, horders2⟩ := hleaves.of_ok hleave
      obtain ⟨_, he2, _, hcompleted2⟩ := hworks2.next hs1 he1
      -- What the engine has completed did not change since it began.
      have hnext2 : (s2.engine r.engine).completed = pass.previous? :=
        hcompleted2.trans (hcompleted1.trans hnext)
      exact (horders2 hs1 he1 horder1).finish he2.lt hnext2

theorem staysOrderly_runPasses_cons {program : Program} {upTo : Pass} {depth : Nat}
    {rest : List Pass}
    (hrest : ∀ s, min (pass.rank + 1) (upTo.rank + 1) ≤ passesUpTo (s.engine r.engine).completed →
      StaysOrderly r.engine s (leaves (r.runPasses program upTo depth rest) s))
    (hbefore : min pass.rank (upTo.rank + 1) ≤ passesUpTo (s.engine r.engine).completed) :
    StaysOrderly r.engine s (leaves (r.runPasses program upTo depth (pass :: rest)) s) := by
  intro hs he horder
  have hstate : r.engine.state s = .ok (s.engine r.engine) s := rfl
  rw [runPasses, leaves_bind_of_ok hstate]
  dsimp only
  have hcompleted : (s.engine r.engine).hasCompleted pass = true ↔
      pass.rank < passesUpTo (s.engine r.engine).completed := Engine.hasCompleted_iff
  split
  · rename_i hrun
    simp only [Bool.and_eq_true, decide_eq_true_eq, Bool.not_eq_true'] at hrun
    obtain ⟨hle, hpending⟩ := hrun
    replace hle : pass.rank ≤ upTo.rank := hle
    rw [hpending] at hcompleted
    have hnot : ¬ pass.rank < passesUpTo (s.engine r.engine).completed := by simpa using hcompleted
    have hnext : (s.engine r.engine).completed = pass.previous? := by
      apply eq_previous?_of_passesUpTo
      omega
    have hpass := r.staysOrderly_runPass hadvance program depth hnext hs he horder
    have hruns := r.runs_runPass (fun id pass => (hadvance id pass).mono fun _ _ h => h.1) program
      depth hpending hs he
    cases hrun : r.runPass program depth pass s with
    | error fault s1 =>
      rw [leaves_bind_of_error hrun, ← leaves_of_error hrun]
      exact hpass
    | ok _ s1 =>
      rw [leaves_bind_of_ok hrun]
      rw [leaves_of_ok hrun] at hpass hruns
      obtain ⟨hs1, ⟨_, hran⟩, _⟩ := hruns
      have he1 := hran.held he
      refine hrest s1 ?_ hs1 he1 hpass
      obtain ⟨_, s2, _, _, rfl⟩ := runPass_eq_ok hrun
      have hdone := hasCompleted_finish (s := s2) (e := r.engine)
        (by simpa [finish] using he1.lt) pass pass
      have hself : pass ≤ pass := .refl
      rw [decide_eq_true hself, Engine.hasCompleted_iff] at hdone
      omega
  · rename_i hskip
    refine hrest s ?_ hs he horder
    by_cases hle : pass ≤ upTo
    · have hdone : (s.engine r.engine).hasCompleted pass = true := by simpa [hle] using hskip
      have hlt := hcompleted.mp hdone
      omega
    · replace hle : ¬ pass.rank ≤ upTo.rank := hle
      omega

theorem staysOrderly_compile (program : Program) (upTo : Pass) (s : Session) :
    StaysOrderly r.engine s (leaves (r.compile program upTo) s) := by
  intro hs he horder
  have hpasses : ∀ depth, StaysOrderly r.engine s
      (leaves (r.runPasses program upTo depth Pass.all) s) := fun depth =>
    r.staysOrderly_runPasses_cons hadvance (fun _ hdeclared =>
      r.staysOrderly_runPasses_cons hadvance (fun _ hresolved =>
        r.staysOrderly_runPasses_cons hadvance (fun _ _ _ _ horder => horder) hresolved)
        hdeclared) (Nat.zero_le _)
  have hstate : r.engine.state s = .ok (s.engine r.engine) s := rfl
  rw [compile, leaves_bind_of_ok hstate]
  have hafter := hpasses (s.engine r.engine).scopes.length hs he horder
  rw [← leaves_attempt] at hafter
  cases hrun : attempt (r.runPasses program upTo (s.engine r.engine).scopes.length Pass.all) s with
  | error fault s1 =>
    rw [leaves_bind_of_error hrun, ← leaves_of_error hrun]
    exact hafter
  | ok outcome s1 =>
    rw [leaves_of_ok hrun] at hafter
    rw [leaves_bind_of_ok hrun]
    cases outcome with
    | error e => exact hafter.modifyEngine r.engine fun _ => rfl
    | ok _ =>
      -- What is checked at the end changes nothing.
      rw [leaves_bind_of_ok (rfl : r.engine.state s1 = .ok (s1.engine r.engine) s1)]
      dsimp only
      split
      · exact hafter
      · split
        · exact hafter
        · exact hafter

end Runner

/-! ## Instances -/

theorem orders_compileInstance {advance : InstanceId → Pass → CompileM Unit}
    (hadvance : ∀ e id pass, Moves (Orders e) (advance id pass)) (e : EngineId) (id : InstanceId)
    (pass : Pass) : Moves (Orders e) (compileInstance advance id pass) := by
  have hworks : ∀ e id pass, Moves (Works e) (advance id pass) := fun e id pass =>
    (hadvance e id pass).mono fun _ _ h => h.1
  refine fun s => ⟨works_compileInstance hworks e id pass s, fun hs _ horder => ?_⟩
  rcases leaves_compileInstance rfl with hsame | ⟨hid, _, s1, hrun, hrest⟩
  · rw [hsame]
    exact horder
  · have hengaged : (s.engage id pass).Orderly :=
      horder.congr rfl (fun _ => finishesOf_of_push rfl rfl) fun _ => rfl
    have hcompiled := Runner.staysOrderly_compile ⟨(s.instanceAt id).engine, advance⟩ (hadvance _)
      (s.instanceAt id).program pass (s.engage id pass) (hs.engage id pass)
      (hs.held_engage pass hid) hengaged
    rw [hrun] at hcompiled
    rcases hrest with hleft | hleft | ⟨_, hleft⟩
    · rw [hleft]
      exact hcompiled
    · rw [hleft]
      exact hcompiled.congr rfl (fun _ => rfl) fun _ => rfl
    · rw [hleft]
      exact hcompiled.congr rfl (fun _ => finishesOf_of_push rfl rfl) fun _ => rfl

theorem orders_advanceWithin (depth : Nat) (e : EngineId) (id : InstanceId) (pass : Pass) :
    Moves (Orders e) (advanceWithin depth id pass) := by
  induction depth generalizing e id pass with
  | zero => exact .throw _
  | succ depth ih => exact orders_compileInstance ih e id pass

theorem Reached.orderly {engines : List EngineId} (hs : Reached engines s) : s.Orderly := by
  induction hs with
  | new settings => exact orderly_new settings
  | start hs h ih =>
    obtain ⟨-, engine, hnew, hquiet⟩ := startEngine_eq_ok h
    exact (ih.step (.fork engine hnew)).step (.quiet hquiet)
  | fork hs h ih =>
    obtain ⟨-, engine, hnew, hquiet⟩ := fork_eq_ok h
    exact (ih.step (.fork engine hnew)).step (.quiet hquiet)
  | build statements hs ih => exact ih.step (.quiet (moves_buildProgram statements _))
  | @compile _ s e depth program upTo hs he ih =>
    obtain ⟨hstaffed, hfree⟩ := hs.staffed
    exact (e.runner depth).staysOrderly_compile (orders_advanceWithin depth e) program upTo s
      hstaffed (hfree e he).mayRun.toHeld ih
  | @command _ s e depth c hs he ih =>
    obtain ⟨hstaffed, hfree⟩ := hs.staffed
    have horders := (e.runner depth).moves_runCommand (R := Orders (e.runner depth).engine)
      (orders_advanceWithin depth e) c s
    exact horders.2 hstaffed (hfree e he).mayRun ih
  | read hs ih => exact ih.congr rfl (fun _ => rfl) fun _ => rfl

end StagedAsm
