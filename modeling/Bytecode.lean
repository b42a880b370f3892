import Bytecode.Builder
import Bytecode.Main
import Bytecode.Program.Edit
import Bytecode.Proofs.EditHistory
import Bytecode.Proofs.Firing
import Bytecode.Workspace
import Bytecode.Proofs.Driver
import Bytecode.Proofs.Offering
import Bytecode.Proofs.Visiting
import Bytecode.Proofs.Callees
import Bytecode.Proofs.CleanUp
import Bytecode.Proofs.Clients
import Bytecode.Proofs.Decisions
import Bytecode.Proofs.Finished
import Bytecode.Proofs.Finishing
import Bytecode.Proofs.MeaningKept
import Bytecode.Proofs.EachReturn
import Bytecode.Proofs.RoundTrip
import Bytecode.Proofs.RunsKept
import Bytecode.Proofs.StackBound
import Bytecode.Proofs.Termination
import Bytecode.Proofs.NeverFails
import Bytecode.Proofs.LeftAlone
import Bytecode.Proofs.Resolving
import Bytecode.Proofs.StaysWritable
import Bytecode.Proofs.ListEdits
import Bytecode.Proofs.Ledger
import Bytecode.Proofs.SecondRun
import Bytecode.Proofs.Forms
import Bytecode.Proofs.Renaming
import Bytecode.Proofs.References
import Bytecode.Proofs.Discarding
import Bytecode.Proofs.Unfolding
import Bytecode.Proofs.AnyOrder
import Bytecode.Proofs.CodeGrammar
import Bytecode.Proofs.Undeclared
import Bytecode.Proofs.FixedPoint
import Bytecode.Proofs.DeadCode
import Bytecode.Proofs.KeptApart
import Bytecode.Proofs.NeverRunsOff
import Bytecode.Proofs.LookingAhead
import Bytecode.Proofs.Accounting
import Bytecode.Proofs.Recency
import Bytecode.Proofs.Labels
import Bytecode.Proofs.Growth
import Bytecode.Proofs.Balance
import Bytecode.Proofs.Filing
import Bytecode.Proofs.GivenPaths
import Bytecode.Proofs.OutputDirectory
import Bytecode.Proofs.Shortcuts
import Bytecode.Proofs.BodyOwners
import Bytecode.Proofs.VolatileJournal
