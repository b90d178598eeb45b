import DartData.Main
import DartData.Proofs.Generation.Totality
import DartData.Proofs.Generation.Local
import DartData.Proofs.Generation.Stepwise
import DartData.Proofs.Run.Lines
import DartData.Proofs.Directives.Repeated
import DartData.Proofs.Directives.Accumulated
import DartData.Proofs.Directives.Span
import DartData.Proofs.Declaration.Bounds
import DartData.Proofs.Declaration.Inverse
import DartData.Proofs.Lexer.Filter
import DartData.Proofs.Text.TopLevel
import DartData.Proofs.Template.Settled
import DartData.Proofs.Constructor.Depth
import DartData.Proofs.Constructor.Named
import DartData.Proofs.Member.Declared
import DartData.Proofs.Member.Findable
import DartData.Proofs.Member.Keys
import DartData.Proofs.Field.Element
import DartData.Proofs.Generation.Order
import DartData.Proofs.Assembly.Replaced
import DartData.Proofs.Scan.Begin
import DartData.Proofs.Scan.Renamed
import DartData.Proofs.Generation.Head
import DartData.Proofs.Settings.Mapping
