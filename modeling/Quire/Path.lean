import Quire.Text.Basic

/-!
# Paths

A path is a text whose segments are separated by slashes. Empty segments and `.` say nothing, and
`..` is no name: `fileName?` is the last segment that counts, if it is a name, and `extension?`
what follows the last dot of that name, if something stands before the dot.
-/

namespace Quire.Path

/-- The texts between the slashes of a path. -/
def segments (path : Text) : List Text := path.splitOnP (· == '/')

/-- The segments of a path that say something. -/
def components (path : Text) : List Text :=
  (segments path).filter fun s => !(s == [] || s == ['.'])

/-- Whether a path starts at the root. -/
def isAbsolute : Text → Bool
  | '/' :: _ => true
  | _ => false

/-- The name at the end of a path. -/
def fileName? (path : Text) : Option Text :=
  (components path).getLast?.filter (· != ['.', '.'])

/-- The text before and after the last dot of a name. -/
def splitLastDot? (name : Text) : Option (Text × Text) :=
  match name.reverse.span (· != '.') with
  | (after, _ :: before) => some (before.reverse, after.reverse)
  | (_, []) => none

/-- The extension of the name at the end of a path. -/
def extension? (path : Text) : Option Text :=
  match (fileName? path).bind splitLastDot? with
  | some (_ :: _, after) => some after
  | _ => none

/-- The path of the name `name` under the path `directory`. -/
def join (directory name : Text) : Text :=
  if isAbsolute name || directory.isEmpty then name
  else if directory.getLast? == some '/' then directory ++ name
  else directory ++ '/' :: name

/-- A path without its last component; the root and the empty path have none. -/
def parent? (path : Text) : Option Text :=
  match components path with
  | [] => if path.isEmpty || isAbsolute path then none else some []
  | cs =>
    let above := Text.joinWith ['/'] cs.dropLast
    some (if isAbsolute path then '/' :: above else above)

/-- The paths of the directories above the last component of a path, the innermost first; neither
the root nor the directory where relative paths start is among them. -/
def above (path : Text) : List Text :=
  let cs := components path
  ((List.range cs.length).drop 1).reverse.map fun n =>
    let names := Text.joinWith ['/'] (cs.take n)
    if isAbsolute path then '/' :: names else names

end Quire.Path
