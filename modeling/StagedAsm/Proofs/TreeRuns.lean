import StagedAsm.Proofs.WholeRuns

/-!
# The scope tree in whole runs

Scopes hang where they should, whatever is run: every step keeps scopes in their places.
-/

namespace StagedAsm

def StaysWellFormed (s s' : Session) : Prop := s.tree.WellFormed → s'.tree.WellFormed

namespace StaysWellFormed

variable {s s' : Session}

theorem of_step (h : Step s s') : StaysWellFormed s s' := by
  intro hs
  cases h with
  | quiet h => exact h.tree.wellFormed hs
  | bind tree p owner name howner hname hpending hfree hkeeps hbound => exact hkeeps.wellFormed hs
  | rebind id owner name symbol howner hname hsettled => exact hs.modifyScope rfl
  | make id made pass hlt hfresh h =>
    obtain ⟨⟨engine, -, hquiet⟩, -, -⟩ := h
    exact hquiet.tree.wellFormed hs
  | _ => exact hs

instance : IsPreorder Session StaysWellFormed where
  refl _ hs := hs
  trans _ _ _ h h' hs := h' (h hs)

instance : Admits StaysWellFormed where
  quiet h := of_step (.quiet h)
  step := of_step

instance : AdmitsRuns StaysWellFormed where
  run h := by cases h <;> exact fun hs => hs

end StaysWellFormed

theorem Reached.wellFormed {engines : List EngineId} {s : Session} (hs : Reached engines s) :
    s.tree.WellFormed := by
  obtain ⟨settings, hstays⟩ := hs.related (R := StaysWellFormed)
  exact hstays ScopeTree.wellFormed_new

end StagedAsm
