import Quire.Disk
import Quire.Encoding

/-!
# Access to files

`FileAccess m` says that computations in `m` can work on files. Commands are written for any such
`m`: over the pure state `Disk` they can be reasoned about, and over `IO` they can be run.
`makeDirectories` makes a directory with all that are missing above it.
-/

namespace Quire

/-- The operations on files that a computation may use. -/
class FileAccess (m : Type → Type) where
  /-- The content of a file. -/
  read : Text → m (Except DiskFault Bytes)
  /-- Writes a file anew. -/
  write : Text → Bytes → m (Except DiskFault Unit)
  /-- Makes a directory in one that is there already. -/
  makeDirectory : Text → m (Except DiskFault Unit)
  /-- Whether a path leads to something. -/
  isThere : Text → m Bool
  /-- Whether a path leads to a directory. -/
  isDirectory : Text → m Bool

/-- A change of the disk that leaves it as it is if it fails. -/
def Disk.attempt (change : Disk → Except DiskFault Disk) : StateM Disk (Except DiskFault Unit) :=
  fun d =>
    match change d with
    | .ok changed => (.ok (), changed)
    | .error cause => (.error cause, d)

instance : FileAccess (StateM Disk) where
  read path := fun d => (d.read path, d)
  write path content := Disk.attempt fun d => d.write path content
  makeDirectory path := Disk.attempt fun d => d.makeDirectory path
  isThere path := fun d => (d.isThere path, d)
  isDirectory path := fun d => (d.isDirectory path, d)

namespace FileAccess

variable {m : Type → Type} [Monad m] [FileAccess m]

/-- Makes a directory or finds it there. -/
def ensureDirectory (path : Text) : m (Except DiskFault Unit) := do
  match ← makeDirectory path with
  | .error .alreadyExists =>
    return if ← isDirectory path then .ok () else .error .alreadyExists
  | result => return result

/-- Makes the first of some directories, and the others first if it has none to be in. -/
def ensureDirectories : List Text → m (Except DiskFault Unit)
  | [] => return .ok ()
  | path :: above => do
    match ← ensureDirectory path with
    | .error .notFound =>
      match ← ensureDirectories above with
      | .ok () => ensureDirectory path
      | .error cause => return .error cause
    | result => return result

/-- Makes a directory with all that are missing above it. -/
def makeDirectories (path : Text) : m (Except DiskFault Unit) :=
  if path.isEmpty then return .ok () else ensureDirectories (path :: Path.above path)

/-- The text of a file in UTF-8. -/
def readText (path : Text) : m (Except DiskFault Text) := do
  match ← read path with
  | .error cause => return .error cause
  | .ok bytes =>
    match Encoding.decodeUtf8? bytes.toByteArray with
    | some t => return .ok t
    | none => return .error .notUtf8

end FileAccess

end Quire
