import Quire.Main
import Quire.Proofs.Artifact
import Quire.Proofs.Chunk.Growth
import Quire.Proofs.Chunk.Spans
import Quire.Proofs.Cleaning.Clean
import Quire.Proofs.Cleaning.Link.Bracket
import Quire.Proofs.Cleaning.Link.Buffer
import Quire.Proofs.Cleaning.Link.Tree
import Quire.Proofs.Cleaning.Wordwise
import Quire.Proofs.Command.Input
import Quire.Proofs.Command.Overrides
import Quire.Proofs.Command.Shown
import Quire.Proofs.Encoding.Chain
import Quire.Proofs.Extraction
import Quire.Proofs.Output.Normal
import Quire.Proofs.Paragraph.Collapsed
import Quire.Proofs.Requirement
import Quire.Proofs.Routing
import Quire.Proofs.Run.Verbatim
import Quire.Proofs.Word.Layout
import Quire.Proofs.Word.Leaves
import Quire.Proofs.Word.Roundtrip
