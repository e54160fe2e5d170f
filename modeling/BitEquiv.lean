import BitEquiv.Logic.Operation
import BitEquiv.Main
import BitEquiv.Proofs.Text.Numeral
import BitEquiv.Proofs.Program.Results
import BitEquiv.Proofs.Bench.Exhaustive
import BitEquiv.Proofs.Bench.Interleaving
import BitEquiv.Proofs.Solver.External
import BitEquiv.Proofs.Solver.Soundness
import BitEquiv.Proofs.Solver.Search
import BitEquiv.Proofs.Solver.Witnesses
import BitEquiv.Proofs.Smt.Scripts
import BitEquiv.Proofs.Smt.Models
import BitEquiv.Proofs.Btor.Models
import BitEquiv.Proofs.Smt.Values
import BitEquiv.Proofs.Btor.WitnessParts
import BitEquiv.Proofs.Solver.Requests
import BitEquiv.Proofs.Program.Elaboration
import BitEquiv.Proofs.Program.FaultPlaces
import BitEquiv.Proofs.Bench.Tally
import BitEquiv.Proofs.Machine.Programs
import BitEquiv.Proofs.Logic.Renaming
import BitEquiv.Proofs.Bench.Fingerprint
import BitEquiv.Proofs.Bench.Templates
import BitEquiv.Proofs.Bench.Stages
import BitEquiv.Proofs.Smt.Sequences
import BitEquiv.Proofs.Execution.Captures
import BitEquiv.Proofs.Bench.Directories
