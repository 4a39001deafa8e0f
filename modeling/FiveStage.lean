import FiveStage.Main
import FiveStage.Proofs.Refinement
import FiveStage.Proofs.PreciseState
import FiveStage.Proofs.Handler
import FiveStage.Proofs.Timing
import FiveStage.Proofs.Execution
import FiveStage.Proofs.Accounting
import FiveStage.Proofs.Conservation
import FiveStage.Proofs.Traffic
import FiveStage.Proofs.Resumption
import FiveStage.Proofs.Legality
import FiveStage.Proofs.Diagram
import FiveStage.Proofs.Unaborted
import FiveStage.Proofs.Coherence
import FiveStage.Proofs.StallLengths
import FiveStage.Proofs.MemoryFaults
import FiveStage.Proofs.Files
import FiveStage.Proofs.PipelineLog
import FiveStage.Proofs.Session
import FiveStage.Proofs.Reports
import FiveStage.Proofs.Geometry
import FiveStage.Proofs.Replacement
import FiveStage.Proofs.LittleEndian
import FiveStage.Proofs.Penalties
import FiveStage.Proofs.InitialMemory
import FiveStage.Proofs.Addressing
import FiveStage.Proofs.FailingSteps
import FiveStage.Proofs.ExceptionCounts
import FiveStage.Proofs.ImageTexts
import FiveStage.Proofs.Dump
import FiveStage.Proofs.LoggedRuns
import FiveStage.Proofs.DecodeOrder
