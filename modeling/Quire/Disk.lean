import Quire.Bytes
import Quire.Fault
import Quire.Path

/-!
# Disks

A `Disk` is a tree of files and directories together with the directory where relative paths start.
What a place of the tree holds is `node?`, and `content?` for a file. `resolve` finds the place that
a path leads to: it goes segment by segment, and every place on the way has to be a directory. On
top of it stand the operations on files: `read`, `write`, `makeDirectory` and `isThere`.
-/

namespace Quire

/-- A place in a tree of files: the names on the way from the root. -/
abbrev Place := List Text

/-- What a place holds. -/
inductive Disk.Node
  | file (content : Bytes)
  | directory
  deriving DecidableEq, Repr

/-- A tree of files. -/
structure Disk where
  /-- What the places below the root hold. -/
  nodes : List (Place × Disk.Node) := []
  /-- The directory where relative paths start. -/
  here : Place := []
  deriving DecidableEq, Repr

namespace Disk

/-- The longest name of a file, in bytes. -/
def maxNameLength : Nat := 255

/-- The longest path, in bytes. -/
def maxPathLength : Nat := 4095

/-! ### Places -/

/-- What a place holds. The root is a directory. -/
def node? (d : Disk) (p : Place) : Option Node :=
  if p = [] then some .directory else d.nodes.lookup p

/-- The content of the file at a place. -/
def content? (d : Disk) (p : Place) : Option Bytes :=
  match d.node? p with
  | some (.file content) => some content
  | _ => none

/-- The disk with another node at a place. -/
def put (d : Disk) (p : Place) (n : Node) : Disk :=
  { d with nodes := (p, n) :: d.nodes.filter (·.1 != p) }

/-- The places of the files. -/
def files (d : Disk) : List Place := (d.nodes.map Prod.fst).filter fun p => (d.content? p).isSome

/-! ### Paths -/

/-- The place that segments lead to from a place. -/
def walk (d : Disk) (p : Place) : List Text → Except DiskFault Place
  | [] => .ok p
  | s :: ss =>
    match d.node? p with
    | none => .error .notFound
    | some (.file _) => .error .notDirectory
    | some .directory =>
      if s = [] ∨ s = ['.'] then d.walk p ss
      else if s = ['.', '.'] then d.walk p.dropLast ss
      else if maxNameLength < Text.utf8Length s then .error .nameTooLong
      else d.walk (p ++ [s]) ss

/-- The place where a path starts, unless it cannot be a path at all. -/
def origin (d : Disk) (path : Text) : Except DiskFault Place :=
  if path.contains '\x00' then .error .nulInName
  else if path.isEmpty then .error .notFound
  else if maxPathLength < Text.utf8Length path then .error .nameTooLong
  else .ok (if Path.isAbsolute path then [] else d.here)

/-- The place that a path leads to, whether it holds something or not. -/
def resolve (d : Disk) (path : Text) : Except DiskFault Place := do
  d.walk (← d.origin path) (Path.segments path)

/-- What the place that a path leads to holds. -/
def find? (d : Disk) (path : Text) : Option Node :=
  match d.resolve path with
  | .ok p => d.node? p
  | .error _ => none

/-! ### Operations -/

/-- Whether a path leads to something. -/
def isThere (d : Disk) (path : Text) : Bool := (d.find? path).isSome

/-- Whether a path leads to a directory. -/
def isDirectory (d : Disk) (path : Text) : Bool := d.find? path == some .directory

/-- The content of a file. -/
def read (d : Disk) (path : Text) : Except DiskFault Bytes := do
  match d.node? (← d.resolve path) with
  | none => .error .notFound
  | some .directory => .error .isDirectory
  | some (.file content) => .ok content

/-- The disk with a file that has been written anew. -/
def write (d : Disk) (path : Text) (content : Bytes) : Except DiskFault Disk := do
  let p ← d.resolve path
  if d.node? p = some .directory then .error .isDirectory else .ok (d.put p (.file content))

/-- The segments of a path without empty ones at its end. -/
def namedSegments (path : Text) : List Text :=
  ((Path.segments path).reverse.dropWhile (·.isEmpty)).reverse

/-- The disk with one more directory, in a directory that is there already. -/
def makeDirectory (d : Disk) (path : Text) : Except DiskFault Disk := do
  let p ← d.walk (← d.origin path) (namedSegments path)
  if (d.node? p).isSome then .error .alreadyExists else .ok (d.put p .directory)

/-! ### What a place holds after a change -/

theorem lookup_filter_of_ne {p q : Place} (h : q ≠ p) (ns : List (Place × Node)) :
    (ns.filter (·.1 != p)).lookup q = ns.lookup q := by
  induction ns with
  | nil => rfl
  | cons n ns ih =>
    obtain ⟨k, v⟩ := n
    by_cases hk : k = p
    · have hq : (q == p) = false := by simp [h]
      simp [hk, List.lookup_cons, hq, ih]
    · simp [hk, List.lookup_cons, ih]

theorem node?_put (d : Disk) (p q : Place) (n : Node) (hp : p ≠ []) :
    (d.put p n).node? q = if q = p then some n else d.node? q := by
  by_cases h : q = p
  · subst h; simp [node?, put, hp]
  · have hq : (q == p) = false := by simp [h]
    simp [node?, put, h, hq, List.lookup_cons, lookup_filter_of_ne h]

theorem content?_put_of_ne (d : Disk) {p q : Place} (n : Node) (h : q ≠ p) :
    (d.put p n).content? q = d.content? q := by
  have hq : (q == p) = false := by simp [h]
  simp [content?, node?, put, hq, List.lookup_cons, lookup_filter_of_ne h]

end Disk

end Quire
