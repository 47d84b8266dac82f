import Valuer.Main
import Valuer.Proofs.Atomicity
import Valuer.Proofs.CanonicalForm
import Valuer.Proofs.Causality
import Valuer.Proofs.ConfigDocuments
import Valuer.Proofs.CutResults
import Valuer.Proofs.DescriptorUses
import Valuer.Proofs.HexBytes
import Valuer.Proofs.LaunchedRuns
import Valuer.Proofs.LogEdits
import Valuer.Proofs.MidStream
import Valuer.Proofs.NumberText
import Valuer.Proofs.Padding
import Valuer.Proofs.Progress
import Valuer.Proofs.ResultGrammar
import Valuer.Proofs.Sequential.Codes
import Valuer.Proofs.Sequential.EarlyStop
import Valuer.Proofs.Sequential.PlanOrder
import Valuer.Proofs.Sequential.Report
import Valuer.Proofs.Sequential.Totals
import Valuer.Proofs.TestCounts
import Valuer.Proofs.TornOutput
import Valuer.Proofs.WireAgreement
import Valuer.Script
