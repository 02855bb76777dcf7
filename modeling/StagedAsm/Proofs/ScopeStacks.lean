import StagedAsm.Proofs.BlockTurns

/-!
# The open scopes of an engine

A program may leave scopes that were open before it ran, and open others in their place: at the end
only the number of open scopes is compared. The moves of an engine tell which of its scopes it left.
-/

namespace StagedAsm

/-! ## Runs -/

/-- The visits of one engine. -/
def visitsOf (e : EngineId) (visits : List Visit) : List Visit :=
  visits.filter fun v => v.engine = e

/-- The trail tells which scopes engines have open. -/
structure Roamed (s s' : Session) (visits : List Visit) : Prop where
  trail : s'.tree.trail.toList = s.tree.trail.toList ++ visits
  size_engines : s.engines.size ≤ s'.engines.size
  climbs : ∀ e : EngineId, e.index < s.engines.size →
    Climbs (s.engine e).scopes (visitsOf e visits) (s'.engine e).scopes

def Roams (s s' : Session) : Prop := s.Grounded → s'.Grounded ∧ ∃ visits, Roamed s s' visits

namespace Roamed

variable {s s' s'' : Session} {visits visits' : List Visit}

theorem append (h : Roamed s s' visits) (h' : Roamed s' s'' visits') :
    Roamed s s'' (visits ++ visits') where
  trail := by rw [h'.trail, h.trail, List.append_assoc]
  size_engines := Nat.le_trans h.size_engines h'.size_engines
  climbs e he := by
    rw [visitsOf, List.filter_append]
    exact (h.climbs e he).append (h'.climbs e (Nat.lt_of_lt_of_le he h.size_engines))

theorem of_same (htrail : s'.tree.trail = s.tree.trail) (hsize : s.engines.size ≤ s'.engines.size)
    (hscopes : ∀ e, e.index < s.engines.size → (s'.engine e).scopes = (s.engine e).scopes) :
    Roamed s s' [] where
  trail := by rw [htrail, List.append_nil]
  size_engines := hsize
  climbs e he := hscopes e he

end Roamed

structure Spares (x : EngineId) (s s' : Session) : Prop where
  size_engines : s.engines.size ≤ s'.engines.size
  engine : ∀ e, e ≠ x → e.index < s.engines.size → s'.engine e = s.engine e

namespace Spares

variable {x : EngineId} {s s' : Session}

instance : IsPreorder Session (Spares x) where
  refl _ := ⟨.refl, fun _ _ _ => rfl⟩
  trans _ _ _ h h' :=
    ⟨Nat.le_trans h.size_engines h'.size_engines, fun e hne he =>
      (h'.engine e hne (Nat.lt_of_lt_of_le he h.size_engines)).trans (h.engine e hne he)⟩

theorem of_step (h : Step s s') : Spares x s s' := by
  refine ⟨?_, fun e _ he => h.engine_of_lt he⟩
  rcases h.still_or with hstill | ⟨engine, _, rfl⟩ | ⟨s1, id, made, pass, hmake, rfl⟩
  · exact Nat.le_of_eq (by rw [hstill.engines])
  · simp
  · rw [hmake.size_engines]
    exact Nat.le_succ _

instance : Admits (Spares x) where
  quiet h := of_step (.quiet h)
  step := of_step

instance : AdmitsEngine x (Spares x) where
  engine {s} f _ :=
    ⟨by simp, fun e hne _ => (s.engine_modify x e f).trans (if_neg fun h => hne h.1)⟩

end Spares

theorem Deed.roamed {x : EngineId} {s s' : Session} (h : Deed x s s') (hs : s.Grounded) :
    ∃ visits, Roamed s s' visits := by
  obtain ⟨visits, htour⟩ := h.tour hs
  have hspares : Spares x s s' := h.related
  refine ⟨visits, htour.strides.trail, htour.size_engines, fun e he => ?_⟩
  by_cases hown : e = x
  · subst hown
    rw [visitsOf, List.filter_eq_self.mpr fun v hv => decide_eq_true (htour.own v hv)]
    exact (htour.follows he).climbs
  · have hnone : visitsOf e visits = [] := by
      refine List.filter_eq_nil_iff.mpr fun v hv => ?_
      simpa [htour.own v hv] using Ne.symm hown
    rw [hnone, hspares.engine e hown he]
    rfl

theorem Session.scopes_modify (s : Session) (e : EngineId) {f : Engine → Engine}
    (hf : ∀ engine, (f engine).scopes = engine.scopes) (other : EngineId) :
    (({ s with engines := s.engines.modify e.index f } : Session).engine other).scopes =
      (s.engine other).scopes := by
  rw [Session.engine_modify]
  split
  · rename_i heq
    rw [hf, heq.1]
  · rfl

namespace Roams

variable {s s' : Session}

instance : IsPreorder Session Roams where
  refl _ hs := ⟨hs, [], .of_same rfl .refl fun _ _ => rfl⟩
  trans _ _ _ h h' hs := by
    obtain ⟨hs1, visits, hvisits⟩ := h hs
    obtain ⟨hs2, visits', hvisits'⟩ := h' hs1
    exact ⟨hs2, visits ++ visits', hvisits.append hvisits'⟩

theorem of_same (h : Travels s s') (htrail : s'.tree.trail = s.tree.trail)
    (hsize : s.engines.size ≤ s'.engines.size)
    (hscopes : ∀ e, (s'.engine e).scopes = (s.engine e).scopes) : Roams s s' := fun hs =>
  ⟨(h hs).1, [], .of_same htrail hsize fun e _ => hscopes e⟩

instance (e : EngineId) : AdmitsDeeds e Roams where
  deed h hs := ⟨(AdmitsDeeds.deed (R := Travels) h hs).1, h.roamed hs⟩

instance : AdmitsRebinds Roams where
  plain h := AdmitsDeeds.deed (e := default) (.plain h)
  rebind howner hname hsettled :=
    of_same (AdmitsRebinds.rebind howner hname hsettled) rfl .refl fun _ => rfl

instance (e : EngineId) : AdmitsPasses e Roams where
  deed h := AdmitsDeeds.deed h
  pass {s s'} h := by
    have htravels : Travels s s' := AdmitsPasses.pass h
    cases h with
    | start | finished => exact of_same htravels rfl .refl fun _ => rfl
    | own f hf =>
      exact of_same htravels rfl (by simp) (s.scopes_modify e fun engine => (hf engine).1)
    | openEpoch h => exact of_same htravels rfl (by simp) (s.scopes_modify e fun _ => rfl)
  close _ := moves_closeEpoch _

instance : AdmitsEngines Roams where
  passes _ := inferInstance
  instances {s s'} h := by
    have htravels : Travels s s' := AdmitsEngines.instances h
    cases h <;> exact of_same htravels rfl .refl fun _ => rfl

end Roams

theorem Runner.length_scopes_of_compile {r : Runner} {program : Program} {upTo : Pass}
    {s s' : Session} (h : r.compile program upTo s = .ok () s') :
    (s'.engine r.engine).scopes.length = (s.engine r.engine).scopes.length := by
  obtain ⟨engine, s1, hstate, h1⟩ := bind_eq_ok.mp h
  cases hstate
  obtain ⟨outcome, s2, hrun, h2⟩ := bind_eq_ok.mp h1
  rcases attempt_eq_ok hrun with ⟨_, rfl, -⟩ | ⟨e, rfl, -⟩
  · obtain ⟨after, s3, hafter, h3⟩ := bind_eq_ok.mp h2
    cases hafter
    obtain ⟨-, h4⟩ := check_eq_ok.mp h3
    split at h4
    · cases h4
    · rename_i hlength
      cases h4
      exact Decidable.of_not_not hlength
  · obtain ⟨_, _, _, h3⟩ := bind_eq_ok.mp h2
    obtain ⟨_, _, _, h4⟩ := bind_eq_ok.mp h3
    cases h4

/-- After a program was compiled, by an engine of its own or by that of an instance, the engine has
    as many scopes open as before. They are the ones that were open before, except for the innermost
    of them that it left in between, in whose place are scopes that it entered. The root is never
    left. -/
theorem compile_keeps_open_scopes {s s' : Session} (hs : s.Grounded) {e : EngineId}
    (he : e.index < s.engines.size) {depth : Nat} {program : Program} {upTo : Pass}
    (h : (e.runner depth).compile program upTo s = .ok () s') :
    (s'.engine e).scopes.length = (s.engine e).scopes.length ∧
    ∃ visits, s'.tree.trail.toList = s.tree.trail.toList ++ visits ∧
      ∃ opened, (s'.engine e).scopes = opened ++
          (s.engine e).scopes.drop (scopesLeft 0 ((visitsOf e visits).map Visit.move)) ∧
        (∀ id ∈ opened, ∃ v ∈ visitsOf e visits, v.move.rewinds = false ∧ v.after = id) ∧
        (scopesLeft 0 ((visitsOf e visits).map Visit.move) = 0 →
          (s'.engine e).scopes = (s.engine e).scopes) ∧
        ∀ inner, (s.engine e).scopes = inner ++ [ScopeTree.root] →
          scopesLeft 0 ((visitsOf e visits).map Visit.move) ≤ inner.length := by
  have hlength : (s'.engine e).scopes.length = (s.engine e).scopes.length :=
    Runner.length_scopes_of_compile h
  obtain ⟨-, visits, hroamed⟩ := ((e.runner depth).moves_compile (R := Roams)
    (moves_advanceWithin depth) program upTo).of_ok h hs
  have hclimbs := hroamed.climbs e he
  have hbase : Climbs ([] ++ (s.engine e).scopes) (visitsOf e visits) (s'.engine e).scopes :=
    hclimbs
  obtain ⟨⟨opened, hopened, hnew⟩, hroot⟩ := hbase.stays
  have hentered : ∀ id ∈ opened, ∃ v ∈ visitsOf e visits, v.move.rewinds = false ∧ v.after = id :=
    fun id hid => (hnew id hid).resolve_left List.not_mem_nil
  refine ⟨hlength, visits, hroamed.trail, opened, hopened, hentered, fun hnone => ?_, hroot⟩
  have hsame : (s'.engine e).scopes = opened ++ (s.engine e).scopes := by
    simpa [hnone] using hopened
  rw [hsame, List.length_append] at hlength
  have hnil : opened = [] := List.length_eq_zero_iff.mp (by omega)
  rw [hsame, hnil, List.nil_append]

def insideNamespace : Session :=
  leaves (EngineId.enterGlobal ⟨0⟩ (.ofName "N")) (leaves (startEngine defaultSections) {})

/-- The program leaves the namespace it starts in for another one. -/
def swapsNamespaces : Program := [.exitGlobal, .enterGlobal (.ofName "M")]

def swappedNamespaces : Session :=
  leaves ((EngineId.runner ⟨0⟩ 0).compile swapsNamespaces .generate) insideNamespace

theorem open_scopes_swapped :
    (EngineId.runner ⟨0⟩ 0).compile swapsNamespaces .generate insideNamespace =
      .ok () swappedNamespaces ∧
    (insideNamespace.engine ⟨0⟩).scopes = [⟨1⟩, ScopeTree.root] ∧
    (swappedNamespaces.engine ⟨0⟩).scopes = [⟨2⟩, ScopeTree.root] :=
  ⟨eq_ok_of_succeeds (by decide +kernel), by decide +kernel, by decide +kernel⟩

theorem grounded_insideNamespace : insideNamespace.Grounded := by
  have hstart : (leaves (startEngine defaultSections) {}).Grounded :=
    (Session.Grounded.new {}).start (rfl : startEngine defaultSections {} = _)
  exact (EngineId.moves_enterGlobal (R := Travels) ⟨0⟩ (.ofName "N") _ hstart).1

theorem compile_keeps_open_scopes_swapped :
    insideNamespace.Grounded ∧ 0 < insideNamespace.engines.size ∧
    (EngineId.runner ⟨0⟩ 0).compile swapsNamespaces .generate insideNamespace =
      .ok () swappedNamespaces ∧
    ∃ visits, swappedNamespaces.tree.trail.toList = insideNamespace.tree.trail.toList ++ visits ∧
      scopesLeft 0 ((visitsOf ⟨0⟩ visits).map Visit.move) = 1 ∧
      ∃ opened, (swappedNamespaces.engine ⟨0⟩).scopes =
        opened ++ (insideNamespace.engine ⟨0⟩).scopes.drop 1 := by
  have hlt : 0 < insideNamespace.engines.size := by decide +kernel
  have hok : (EngineId.runner ⟨0⟩ 0).compile swapsNamespaces .generate insideNamespace =
      .ok () swappedNamespaces := eq_ok_of_succeeds (by decide +kernel)
  obtain ⟨-, visits, htrail, opened, hopened, -, -, -⟩ :=
    compile_keeps_open_scopes grounded_insideNamespace (e := ⟨0⟩) hlt hok
  have hvisits : visits = swappedNamespaces.tree.trail.toList.drop 1 := by
    have hone : insideNamespace.tree.trail.toList.length = 1 := by decide +kernel
    rw [htrail, ← hone, List.drop_left]
  have hleft : scopesLeft 0 ((visitsOf ⟨0⟩ visits).map Visit.move) = 1 := by
    rw [hvisits]
    decide +kernel
  rw [hleft] at hopened
  exact ⟨grounded_insideNamespace, hlt, hok, visits, htrail, hleft, opened, hopened⟩

end StagedAsm
