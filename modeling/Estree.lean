import Estree.Node.ToJson
import Estree.CommandLine.Folder
import Estree.Main
import Estree.Proofs.Appending
import Estree.Proofs.Erasure
import Estree.Proofs.Errors
import Estree.Proofs.Expression
import Estree.Proofs.Expression.Callee
import Estree.Proofs.Expression.Chain
import Estree.Proofs.Expression.Comparison
import Estree.Proofs.Expression.Typed
import Estree.Proofs.Grouping
import Estree.Proofs.Import
import Estree.Proofs.Layering
import Estree.Proofs.LayoutFree
import Estree.Proofs.Listing
import Estree.Proofs.LoadFault
import Estree.Proofs.Locality
import Estree.Proofs.LoopHead
import Estree.Proofs.Nesting
import Estree.Proofs.Opening
import Estree.Proofs.Presentation
import Estree.Proofs.Quoting
import Estree.Proofs.Shape
import Estree.Proofs.Sign
import Estree.Proofs.Statement
import Estree.Proofs.Template
import Estree.Proofs.Termination
import Estree.Proofs.Terminator
import Estree.Proofs.TextLoading
import Estree.Proofs.TypeSyntax
import Estree.Proofs.Variant
