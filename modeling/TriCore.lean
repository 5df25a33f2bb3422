import TriCore.Command.FileTree
import TriCore.Main
import TriCore.Proofs.Decoder.Conformity
import TriCore.Proofs.Decoder.Failures
import TriCore.Proofs.Decoder.RegisterMap
import TriCore.Proofs.Decoder.Totality
import TriCore.Proofs.Encoding.Significance
import TriCore.Proofs.Sweep.Program
import TriCore.Proofs.Decision.Course
import TriCore.Proofs.Decision.Surroundings
import TriCore.Proofs.Format.Addition
import TriCore.Proofs.Format.Declaration
import TriCore.Proofs.Word.Scatter
import TriCore.Proofs.Decoder.Gating
import TriCore.Proofs.Decoder.Report
import TriCore.Proofs.Sweep.Rebasing
import TriCore.Proofs.Image.Window
import TriCore.Proofs.Listing.Line
import TriCore.Proofs.Listing.Record
import TriCore.Proofs.Command.Range
import TriCore.Proofs.Command.Address
import TriCore.Proofs.Configuration
import TriCore.Proofs.Opcode.Entries
import TriCore.Proofs.Register.Resolution
