import Hollow.Main
import Hollow.Proofs.Conservation
import Hollow.Proofs.Content
import Hollow.Proofs.Insertion
import Hollow.Proofs.Leniency
import Hollow.Proofs.LookupCompleteness
import Hollow.Proofs.Malformed
import Hollow.Proofs.Policies
import Hollow.Proofs.ReportFiles
import Hollow.Proofs.ScanGate
import Hollow.Proofs.SpanNesting
import Hollow.Proofs.Stubs
import Hollow.Proofs.DeclaratorNames
import Hollow.Proofs.RegroupedTrees
import Hollow.Proofs.FileOrder
import Hollow.Proofs.Containment
import Hollow.Proofs.PrintedVerdicts
import Hollow.Proofs.FileChoice
import Hollow.Proofs.TargetTexts
import Hollow.Proofs.ColouredTexts
import Hollow.Proofs.BodyReasons
import Hollow.Proofs.LanguageSets
import Hollow.Proofs.QualifiedNames
import Hollow.Proofs.ConfigChecks
