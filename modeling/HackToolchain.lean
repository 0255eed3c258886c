import HackToolchain.Machine.Run
import HackToolchain.Main
import HackToolchain.Proofs.Acceptance
import HackToolchain.Proofs.Addresses
import HackToolchain.Proofs.AssemblerEndings
import HackToolchain.Proofs.Assembling
import HackToolchain.Proofs.Builds
import HackToolchain.Proofs.Calls
import HackToolchain.Proofs.Carets
import HackToolchain.Proofs.Comments
import HackToolchain.Proofs.Comparisons
import HackToolchain.Proofs.Computation
import HackToolchain.Proofs.ComputationWords
import HackToolchain.Proofs.Emission
import HackToolchain.Proofs.Execution
import HackToolchain.Proofs.FailedWrites
import HackToolchain.Proofs.FunctionSurvey
import HackToolchain.Proofs.Grammar
import HackToolchain.Proofs.Halting
import HackToolchain.Proofs.Histories
import HackToolchain.Proofs.InstructionKinds
import HackToolchain.Proofs.LineParts
import HackToolchain.Proofs.LinkChecks
import HackToolchain.Proofs.Linking
import HackToolchain.Proofs.Loading
import HackToolchain.Proofs.Numerals
import HackToolchain.Proofs.Outcomes
import HackToolchain.Proofs.OutputFiles
import HackToolchain.Proofs.Printing
import HackToolchain.Proofs.ProgramText
import HackToolchain.Proofs.Reading
import HackToolchain.Proofs.RegistryHistories
import HackToolchain.Proofs.Rendering
import HackToolchain.Proofs.Resolution
import HackToolchain.Proofs.Runs
import HackToolchain.Proofs.Simulation
import HackToolchain.Proofs.SourceFaults
import HackToolchain.Proofs.SparseRuns
import HackToolchain.Proofs.Spelling
import HackToolchain.Proofs.StackMachine
import HackToolchain.Proofs.Statics
import HackToolchain.Proofs.Streaming
import HackToolchain.Proofs.TemplateText
import HackToolchain.Proofs.Templates
import HackToolchain.Proofs.Tokens
import HackToolchain.Proofs.Transfers
import HackToolchain.Proofs.WriterRuns
