import Formulary.Main
import Formulary.Plan.Outline
import Formulary.Proofs.Console.Transcript
import Formulary.Proofs.Dispatch.Overriding
import Formulary.Proofs.Pattern.Anchoring
import Formulary.Proofs.Plan.Arguments
import Formulary.Proofs.Plan.Assignments
import Formulary.Proofs.Plan.ExactArithmetic
import Formulary.Proofs.Plan.FieldAccess
import Formulary.Proofs.Plan.Literals
import Formulary.Proofs.Plan.Narrowing
import Formulary.Proofs.Plan.Times
import Formulary.Proofs.Record.Numbering
import Formulary.Proofs.Record.ReadDocuments
import Formulary.Proofs.Record.SchemaDocuments
import Formulary.Proofs.Syntax.Coverage
import Formulary.Proofs.Syntax.Depth
import Formulary.Proofs.Syntax.Escapes
import Formulary.Proofs.Syntax.Recognition
import Formulary.Proofs.Syntax.Refusal
import Formulary.Proofs.Syntax.Reprinting
import Formulary.Proofs.Syntax.Scanning
