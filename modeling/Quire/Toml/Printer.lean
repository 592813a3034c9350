import Quire.Text.Decimal
import Quire.Toml.Quoted
import Quire.Toml.Value

/-!
# Writing TOML documents

`print` writes a document made of sections: for each its header and one line for each setting, with
an empty line between sections. A list of two or more items has a line for each of them.
-/

namespace Quire.Toml

/-- A scalar as it is written. -/
def Scalar.print : Scalar → Text
  | text t => quoted t
  | integer n => Text.signedDecimal n.toInt
  | boolean true => "true".toList
  | boolean false => "false".toList

/-- A scalar or a list as it is written. -/
def Setting.print : Setting → Text
  | one s => s.print
  | many [] => ['[', ']']
  | many [s] => ['['] ++ s.print ++ [']']
  | many items =>
    ['[', '\n'] ++ items.flatMap (fun s => "    ".toList ++ s.print ++ [',', '\n']) ++ [']']

/-- A section as it is written. -/
def Section.print (s : Section) : Text :=
  ['['] ++ s.name ++ [']', '\n'] ++
    s.entries.flatMap fun e => e.1 ++ " = ".toList ++ e.2.print ++ ['\n']

/-- A document of sections. -/
def print (sections : List Section) : Text := Text.joinWith ['\n'] (sections.map Section.print)

end Quire.Toml
