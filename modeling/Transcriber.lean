import Transcriber.Block.Part
import Transcriber.Command.Package
import Transcriber.Command.Path
import Transcriber.Config.Samples
import Transcriber.Helper.Lock
import Transcriber.Main
import Transcriber.Print.Operation
import Transcriber.Proofs.Comment.Taken
import Transcriber.Proofs.Expression.Constants
import Transcriber.Proofs.Expression.Mixture
import Transcriber.Proofs.Helper.Specific
import Transcriber.Proofs.Helper.Unsigned
import Transcriber.Proofs.Hoist.Body
import Transcriber.Proofs.Lexical.Spacing
import Transcriber.Proofs.Parsing.Enclosed
import Transcriber.Proofs.Parsing.Neighbours
import Transcriber.Proofs.Print.Remarks
import Transcriber.Proofs.Print.Static
import Transcriber.Proofs.Revision.Renamed
import Transcriber.Proofs.Source.Levels
import Transcriber.Proofs.Statement.Switch
import Transcriber.Proofs.Text.Literal
import Transcriber.Proofs.Walk.Braces
