/-!
# Identities

Things that change over time and are referred to from many places are kept in tables; everything
else names them by their position there, with one type of position for each kind of thing.
-/

namespace StagedAsm

structure ScopeId where
  index : Nat
  deriving DecidableEq, Repr, Inhabited

def ScopeId.text (id : ScopeId) : String := s!"#{id.index}"

structure FrameId where
  index : Nat
  deriving DecidableEq, Repr, Inhabited

structure AliasId where
  index : Nat
  deriving DecidableEq, Repr, Inhabited

structure TypeId where
  index : Nat
  deriving DecidableEq, Repr, Inhabited

structure PlaceholderId where
  index : Nat
  deriving DecidableEq, Repr, Inhabited

structure TypeRefId where
  index : Nat
  deriving DecidableEq, Repr, Inhabited

structure TemplateId where
  index : Nat
  deriving DecidableEq, Repr, Inhabited

structure InstanceId where
  index : Nat
  deriving DecidableEq, Repr, Inhabited

structure EngineId where
  index : Nat
  deriving DecidableEq, Repr, Inhabited

/-- The destination of a section's text. -/
structure SinkId where
  index : Nat
  deriving DecidableEq, Repr, Inhabited

end StagedAsm
