import StagedAsm.Proofs.FieldNames
import StagedAsm.Proofs.ArgumentSlots
import StagedAsm.Proofs.FrameClosing
import StagedAsm.Proofs.MangledNames
import StagedAsm.Proofs.CallHazards
import StagedAsm.Proofs.DistinctBlocks
import StagedAsm.Proofs.LabelTexts
import StagedAsm.Proofs.AliasTexts
import StagedAsm.Proofs.InstancePrivacy
import StagedAsm.Proofs.PartialDrains
import StagedAsm.Proofs.BlockReleases
import StagedAsm.Proofs.PathLookup
import StagedAsm.Proofs.TokenLines
import StagedAsm.Proofs.LiteralReading
import StagedAsm.Proofs.ResumedPasses
import StagedAsm.Proofs.FailedDeclarations
import StagedAsm.Proofs.StableBindings
import StagedAsm.Proofs.ArrayOffsets
import StagedAsm.Proofs.TypeReferences
import StagedAsm.Proofs.FrameLives
