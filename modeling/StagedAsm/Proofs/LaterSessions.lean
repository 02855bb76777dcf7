import Mathlib.Logic.Relation
import StagedAsm.Proofs.WholeRuns

/-!
# Sessions that come later

A session is later than another if it comes about by what engines, passes, instances and epochs do,
whoever was at work. What is said of a later session holds in the middle of an action as well.
-/

namespace StagedAsm

inductive Turn : Session → Session → Prop where
  | deed {s s' : Session} (e : EngineId) (h : Deed e s s') : Turn s s'
  | pass {s s' : Session} (e : EngineId) (h : PassStep e s s') : Turn s s'
  | running {s s' : Session} (h : InstanceStep s s') : Turn s s'
  | rebind {s : Session} {id : PlaceholderId} {owner : ScopeId} {name : String} {symbol : Symbol}
      (howner : (s.placeholder id).owner = some owner)
      (hname : (s.placeholder id).name = some name)
      (hsettled : (s.placeholder id).state = .settled symbol) : Turn s (s.rebind owner name symbol)
  | engine {s s' : Session} (new : Engine) (hnew : new.IsNew)
      (h : Quiet { s with engines := s.engines.push new } s') : Turn s s'

def Later : Session → Session → Prop := Relation.ReflTransGen Turn

namespace Later

variable {s s' : Session}

theorem of_turn (h : Turn s s') : Later s s' := .single h

instance : IsPreorder Session Later where
  refl _ := .refl
  trans _ _ _ := Relation.ReflTransGen.trans

instance (e : EngineId) : AdmitsDeeds e Later where
  deed h := of_turn (.deed e h)

instance : AdmitsRebinds Later where
  plain h := of_turn (.deed default (.plain h))
  rebind howner hname hsettled := of_turn (.rebind howner hname hsettled)

instance (e : EngineId) : AdmitsPasses e Later where
  pass h := of_turn (.pass e h)
  close _ := moves_closeEpoch _

instance : AdmitsEngines Later where
  passes _ := inferInstance
  instances h := of_turn (.running h)

theorem related {R : Session → Session → Prop} [AdmitsRuns R] (h : Later s s') : R s s' := by
  induction h with
  | refl => exact refl_of R s
  | tail _ hturn ih =>
    refine trans_of R ih ?_
    cases hturn with
    | deed e h => exact AdmitsDeeds.deed h
    | pass e h => exact AdmitsPasses.pass h
    | running h => exact AdmitsEngines.instances h
    | rebind howner hname hsettled => exact AdmitsRebinds.rebind howner hname hsettled
    | engine new hnew h =>
      exact trans_of R (Admits.step (.fork new hnew)) (AdmitsQuiet.quiet h)

end Later

theorem Reached.later {engines : List EngineId} {s : Session} (hs : Reached engines s) :
    ∃ settings, Later { settings } s :=
  hs.related_of fun hnew hquiet => .of_turn (.engine _ hnew hquiet)

end StagedAsm
