import RegisterColouring.Text.SpanTable
import RegisterColouring.Main
import RegisterColouring.Proofs.Names
import RegisterColouring.Proofs.Operands
import RegisterColouring.Proofs.ControlFlow
import RegisterColouring.Proofs.LiveNames
import RegisterColouring.Proofs.Conflicts
import RegisterColouring.Proofs.Elimination
import RegisterColouring.Proofs.Selection
import RegisterColouring.Proofs.ColouredRuns
import RegisterColouring.Proofs.LivePaths
import RegisterColouring.Proofs.ConflictEdges
import RegisterColouring.Proofs.Outcomes
import RegisterColouring.Proofs.FreshNames
import RegisterColouring.Proofs.WellFormed
import RegisterColouring.Proofs.Grammar
import RegisterColouring.Proofs.Numerals
import RegisterColouring.Proofs.TermText
import RegisterColouring.Proofs.SpillPlan
import RegisterColouring.Proofs.SpillFlow
import RegisterColouring.Proofs.SpillConflicts
import RegisterColouring.Proofs.Feasibility
import RegisterColouring.Proofs.Homes
import RegisterColouring.Proofs.SpillAnalysis
import RegisterColouring.Proofs.Slots
import RegisterColouring.Proofs.SpilledRuns
import RegisterColouring.Proofs.Rounds
import RegisterColouring.Proofs.Termination
import RegisterColouring.Proofs.Completeness
import RegisterColouring.Proofs.CodeText
import RegisterColouring.Proofs.ReadBack
import RegisterColouring.Proofs.SpillParts
import RegisterColouring.Proofs.Confinement
import RegisterColouring.Proofs.Temporaries
import RegisterColouring.Proofs.Accounts
import RegisterColouring.Proofs.Splitting
import RegisterColouring.Proofs.Balance
import RegisterColouring.Proofs.RecordedTerms
import RegisterColouring.Proofs.PositionalReading
import RegisterColouring.Proofs.ReadingAgreement
import RegisterColouring.Proofs.SafeReading
import RegisterColouring.Proofs.AllocatedText
import RegisterColouring.Proofs.Relabelling
import RegisterColouring.Proofs.Recolouring
import RegisterColouring.Proofs.Lockstep
import RegisterColouring.Proofs.OrderIndependence
import RegisterColouring.Proofs.ExactSpans
import RegisterColouring.Proofs.SpillContract
import RegisterColouring.Proofs.FrameAccounting
import RegisterColouring.Proofs.VariableOrder
import RegisterColouring.Proofs.Crowds
import RegisterColouring.Proofs.FirstFit
import RegisterColouring.Proofs.Passes
import RegisterColouring.Proofs.Culprits
import RegisterColouring.Proofs.SpilledText
import RegisterColouring.Proofs.Spelling
import RegisterColouring.Proofs.InstructionTerms
import RegisterColouring.Proofs.IssueOrder
import RegisterColouring.Proofs.SourceLines
import RegisterColouring.Proofs.LineSplitting
import RegisterColouring.Proofs.RoundLimit
import RegisterColouring.Proofs.Alignment
import RegisterColouring.Proofs.Substitution
import RegisterColouring.Proofs.Enumeration
