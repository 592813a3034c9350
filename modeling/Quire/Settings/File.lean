import Quire.Settings.Basic
import Quire.Toml.Document
import Quire.Toml.Printer

/-!
# Settings files

A settings file is a TOML document: `Settings.read?` reads one and `Settings.print` writes one.
-/

namespace Quire.Settings

/-- The settings that the text of a file gives, unless it is malformed. -/
def read? (t : Text) : Option Settings := (Toml.document? t).bind ofValue?

/-- The settings as the text of a file. -/
def print (s : Settings) : Text := Toml.print s.sections

end Quire.Settings
